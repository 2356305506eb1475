import TemplateEngine.Proofs.Contexts.Order
import TemplateEngine.Proofs.Lexical.Views

/-!
# What was written is read back

Over models that are maps and namespaces, a global name is looked up in one model after the other,
and a model that binds it to undefined is passed over like one that does not bind it
(`readVariable_global`). A write that succeeds binds one name in one place, which is the innermost
model, the frame of the active call or that of the innermost loop, and the value is read from there
afterwards; only the undefined value that was written to a global name gives way to what the models
around bind (`written_value_reads_back`).
-/

namespace TemplateEngine

open TemplateEngine.Action

theorem Frame.get_define (f : Frame) (key name : String) (v : Value) (flag : Bool) :
    (f.define key v flag).get name = if key = name then v else f.get name := by
  unfold Frame.get
  rw [Frame.get?_define]
  split <;> rfl

/-! ## Models that bind names -/

/-- What a map or a namespace binds a name to. -/
def Cell.bound? (name : String) : Cell → Option Value
  | .entries d => d.get? name
  | .names f => f.get? name
  | _ => none

namespace Store

/-- The value is a map or a namespace, which has the names that are bound in it and no others. -/
def HoldsNames (σ : Store) : Value → Prop
  | .map r => ∃ d, σ.cell? r = some (.entries d)
  | .object r => ∃ f, σ.cell? r = some (.names f)
  | _ => False

/-- What a model binds a name to. -/
def bound? (σ : Store) (name : String) : Value → Option Value
  | .map r | .object r => (σ.cell? r).bind (Cell.bound? name)
  | _ => none

/-- What a name is bound to in the innermost model that has it. -/
def innermost? (σ : Store) (name : String) (models : List Value) : Option Value :=
  models.findSome? (σ.bound? name)

/-- The first value other than undefined that models bind a name to, innermost model first. -/
def seen (σ : Store) (name : String) : List Value → Value
  | [] => .undefined
  | model :: rest =>
    let v := (σ.bound? name model).getD .undefined
    if v.isUndefined then σ.seen name rest else v

variable {σ τ : Store} {name : String}

theorem seen_congr {models : List Value}
    (h : ∀ model ∈ models, τ.bound? name model = σ.bound? name model) :
    τ.seen name models = σ.seen name models := by
  induction models with
  | nil => rfl
  | cons model rest ih =>
    rw [List.forall_mem_cons] at h
    simp only [seen, h.1, ih h.2]

/-- Unless it is undefined there, a name has the value from the innermost model that binds it. -/
theorem seen_of_innermost {models : List Value} {v : Value}
    (h : σ.innermost? name models = some v) (hv : v ≠ .undefined) : σ.seen name models = v := by
  induction models with
  | nil => cases h
  | cons model rest ih =>
    simp only [innermost?, List.findSome?_cons] at h
    cases hb : σ.bound? name model with
    | none =>
      rw [hb] at h
      simp only [seen, hb]
      exact ih h
    | some w =>
      rw [hb] at h
      cases h
      cases v with
      | undefined => exact absurd rfl hv
      | _ => simp only [seen, hb]; rfl

/-- A name that no model binds is undefined. -/
theorem seen_of_innermost_eq_none {models : List Value} (h : σ.innermost? name models = none) :
    σ.seen name models = .undefined := by
  induction models with
  | nil => rfl
  | cons model rest ih =>
    simp only [innermost?, List.findSome?_cons] at h
    cases hb : σ.bound? name model with
    | none =>
      rw [hb] at h
      simp only [seen, hb]
      exact ih h
    | some w =>
      rw [hb] at h
      cases h

/-! ### Binding a name -/

/-- The second store is the first one with a name bound in one model, which is all that has
changed. -/
structure Rebound (σ : Store) (model : Value) (name : String) (v : Value) (τ : Store) : Prop where
  self : τ.bound? name model = some v
  other (key : String) (value : Value) : key ≠ name → τ.bound? key value = σ.bound? key value
  holdsNames (value : Value) : σ.HoldsNames value → τ.HoldsNames value

/-- The place of a map or a namespace is changed to another one of its kind that binds one name as
said and the other names as before. -/
theorem rebound_put {r : Ref} {cell new : Cell} {model v : Value} (h : σ.cell? r = some cell)
    (hmodel : model = .map r ∨ model = .object r) (hself : new.bound? name = some v)
    (hother : ∀ key, key ≠ name → new.bound? key = cell.bound? key)
    (hentries : ∀ d, cell = .entries d → ∃ d, new = .entries d)
    (hnames : ∀ f, cell = .names f → ∃ f, new = .names f) :
    σ.Rebound model name v (σ.put r new) := by
  have hput : (σ.put r new).cell? r = some new := cell?_put_self h
  have hfar : ∀ {q}, r ≠ q → (σ.put r new).cell? q = σ.cell? q := cell?_put_of_ne σ _
  -- maps and namespaces are looked up at their place alike
  have hbound : ∀ q key, key ≠ name →
      ((σ.put r new).cell? q).bind (Cell.bound? key) = (σ.cell? q).bind (Cell.bound? key) := by
    intro q key hkey
    by_cases hq : r = q
    · subst hq
      simp only [hput, h, Option.bind_some, hother key hkey]
    · rw [hfar hq]
  refine ⟨?_, fun key value hkey => ?_, fun value hvalue => ?_⟩
  · rcases hmodel with rfl | rfl <;> simp only [bound?, hput, Option.bind_some, hself]
  · cases value with
    | map q | object q => exact hbound q key hkey
    | _ => rfl
  · cases value with
    | map q =>
      obtain ⟨d, hd⟩ := hvalue
      by_cases hq : r = q
      · subst hq
        obtain ⟨e, rfl⟩ := hentries d (Option.some.inj (h.symm.trans hd))
        exact ⟨e, hput⟩
      · exact ⟨d, (hfar hq).trans hd⟩
    | object q =>
      obtain ⟨f, hf⟩ := hvalue
      by_cases hq : r = q
      · subst hq
        obtain ⟨g, rfl⟩ := hnames f (Option.some.inj (h.symm.trans hf))
        exact ⟨g, hput⟩
      · exact ⟨f, (hfar hq).trans hf⟩
    | _ => exact hvalue

theorem rebound_setEntry {r : Ref} {d : Dictionary Value} (h : σ.cell? r = some (.entries d))
    (name : String) (v : Value) : σ.Rebound (.map r) name v (σ.setEntry r name v) := by
  have hset : σ.setEntry r name v = σ.put r (.entries (d.insert name v)) := by
    simp only [setEntry, h]
  rw [hset]
  refine rebound_put h (.inl rfl) (d.get?_insert_self name v) (fun key hkey => ?_)
    (fun _ _ => ⟨_, rfl⟩) fun _ hf => ?_
  · exact d.get?_insert_of_ne (Ne.symm hkey) v
  · cases hf

theorem rebound_objectSet {r : Ref} {f : Frame} (h : σ.cell? r = some (.names f)) {v : Value}
    (hset : σ.objectSet r name v = .ok τ) : σ.Rebound (.object r) name v τ := by
  simp only [objectSet, h] at hset
  cases hf : f.set name v with
  | error e =>
    rw [hf] at hset
    cases hset
  | ok g =>
    rw [hf] at hset
    cases hset
    obtain ⟨-, rfl⟩ := Frame.set_eq_ok_iff.1 hf
    refine rebound_put h (.inr rfl) ?_ (fun key hkey => ?_) (fun _ => nofun) fun _ _ => ⟨_, rfl⟩
    · simp only [Cell.bound?, Frame.get?_define, if_true]
    · simp only [Cell.bound?, Frame.get?_define, if_neg (Ne.symm hkey)]

end Store

/-! ## Reading -/

section

variable {c : Context} {name : String}

/-- A map or a namespace gives what it binds a name to, and reading it changes nothing. -/
theorem readMember_of_holdsNames {model : Value} (h : c.store.HoldsNames model) :
    readMember model name c = (.ok ((c.store.bound? name model).getD .undefined), c) := by
  cases model with
  | map r =>
    obtain ⟨d, hd⟩ := h
    have hentries : c.store.entries r = d := by simp only [Store.entries, hd]
    simp only [readMember, memberAccessor, MemberAccessors.resolve, inStore, view, bind_apply,
      MemberAccessor.get, realise, pure_apply, hentries, Store.bound?, hd, Option.bind_some,
      Cell.bound?]
  | object r =>
    obtain ⟨f, hf⟩ := h
    simp only [readMember, memberAccessor, MemberAccessors.resolve, inStore, view, bind_apply,
      MemberAccessor.get, Store.objectGet, hf, realise, pure_apply, Store.bound?,
      Option.bind_some, Cell.bound?, Frame.get]
  | _ => exact h.elim

theorem readGlobal_of_holdsNames {gs : List GlobalFrame}
    (h : ∀ g ∈ gs, c.store.HoldsNames g.model) :
    readGlobal name gs c = (.ok (c.store.seen name (gs.map (·.model))), c) := by
  induction gs with
  | nil => rfl
  | cons g rest ih =>
    rw [List.forall_mem_cons] at h
    rw [readGlobal, bind_of_ok (readMember_of_holdsNames h.1)]
    simp only [List.map_cons, Store.seen]
    split
    · exact ih h.2
    · rfl

/-- The models, innermost first. -/
def Context.models (c : Context) : List Value := c.scopes.globals.toList.map (·.model)

/-- All models are maps or namespaces. -/
def Context.HoldsNames (c : Context) : Prop :=
  ∀ g ∈ c.scopes.globals.toList, c.store.HoldsNames g.model

/-- Over maps and namespaces, a global name has the first value other than undefined that a model
binds it to. -/
theorem readVariable_global (h : c.HoldsNames) {ref : VarRef} (hscope : ref.scope = .global) :
    readVariable ref c = (.ok (c.store.seen ref.name c.models), c) := by
  simp only [readVariable, hscope]
  exact readGlobal_of_holdsNames h

theorem readVariable_locals {ref : VarRef} (hscope : ref.scope = .locals) :
    readVariable ref c = (.ok (c.scopes.localFrame.get ref.name), c) := by
  simp only [readVariable, hscope]
  rfl

theorem readVariable_loop {ref : VarRef} (hscope : ref.scope = .loop) :
    readVariable ref c = match c.scopes.loopFrame? with
      | some frame => (.ok (frame.get ref.name), c)
      | none => (.error (.script ref.position (.loopVariableOutsideLoop ref.name)), c) := by
  simp only [readVariable, hscope, bind_apply, view]
  cases c.scopes.loopFrame? <;> rfl

/-- A variable reads in one context as in another if what is read for it is bound alike. -/
theorem readVariable_congr {d : Context} (hc : c.HoldsNames) (hd : d.HoldsNames) {ref : VarRef}
    (hglobal : ref.scope = .global → d.store.seen ref.name d.models =
      c.store.seen ref.name c.models)
    (hlocals : ref.scope = .locals → d.scopes.localFrame.get ref.name =
      c.scopes.localFrame.get ref.name)
    (hloop : ref.scope = .loop → d.scopes.loopFrame?.map (·.get ref.name) =
      c.scopes.loopFrame?.map (·.get ref.name)) :
    (readVariable ref d).1 = (readVariable ref c).1 := by
  cases hscope : ref.scope with
  | global => rw [readVariable_global hc hscope, readVariable_global hd hscope, hglobal hscope]
  | locals => rw [readVariable_locals hscope, readVariable_locals hscope, hlocals hscope]
  | loop =>
    have heq := hloop hscope
    rw [readVariable_loop hscope, readVariable_loop hscope]
    generalize c.scopes.loopFrame? = f at heq ⊢
    generalize d.scopes.loopFrame? = g at heq ⊢
    cases f with
    | none => cases g with
      | none => rfl
      | some g => cases heq
    | some f => cases g with
      | none => cases heq
      | some g => exact congrArg Outcome.ok (Option.some.inj heq)

end

/-! ## Writing -/

section

variable {c d : Context} {ref : VarRef} {v : Value}

/-- A global name is bound in the innermost model. -/
theorem rebound_of_writeVariable (h : c.HoldsNames) (hscope : ref.scope = .global)
    (hw : writeVariable ref v c = (.ok (), d)) :
    ∃ τ, d = { c with store := τ } ∧
      c.store.Rebound c.scopes.globals.top.model ref.name v τ := by
  have hmem : c.scopes.globals.top ∈ c.scopes.globals.toList := by
    rw [Scopes.toList_eq_top_cons]
    exact List.mem_cons_self
  have hmodel := h _ hmem
  simp only [writeVariable, hscope, bind_apply, view] at hw
  split at hw
  · cases hw
  · generalize c.scopes.globals.top.model = model at hmodel hw ⊢
    cases model with
    | map r =>
      obtain ⟨e, he⟩ := hmodel
      cases hw
      exact ⟨_, rfl, Store.rebound_setEntry he ref.name v⟩
    | object r =>
      obtain ⟨f, hf⟩ := hmodel
      simp only [writeMember, memberAccessor, MemberAccessors.resolve, onStore, bind_apply,
        MemberAccessor.set] at hw
      cases hset : c.store.objectSet r ref.name v with
      | error e =>
        rw [hset] at hw
        cases e <;> cases hw
      | ok τ =>
        rw [hset] at hw
        cases hw
        exact ⟨τ, rfl, Store.rebound_objectSet hf hset⟩
    | _ => exact hmodel.elim

theorem eq_of_writeVariable_locals (hscope : ref.scope = .locals)
    (hw : writeVariable ref v c = (.ok (), d)) :
    d = { c with scopes :=
      c.scopes.setLocalFrame (c.scopes.localFrame.define ref.name v false) } := by
  simp only [writeVariable, hscope, bind_apply, view] at hw
  cases hset : c.scopes.localFrame.set ref.name v with
  | error e =>
    rw [hset] at hw
    cases hw
  | ok frame =>
    rw [hset] at hw
    cases hw
    rw [(Frame.set_eq_ok_iff.1 hset).2]

theorem eq_of_writeVariable_loop (hscope : ref.scope = .loop)
    (hw : writeVariable ref v c = (.ok (), d)) : ∃ frame, c.scopes.loopFrame? = some frame ∧
      d = { c with scopes := c.scopes.setLoopFrame (frame.define ref.name v false) } := by
  simp only [writeVariable, hscope, bind_apply, view] at hw
  cases hloop : c.scopes.loopFrame? with
  | none =>
    rw [hloop] at hw
    cases hw
  | some frame =>
    rw [hloop] at hw
    dsimp only at hw
    cases hset : frame.set ref.name v with
    | error e =>
      rw [hset] at hw
      cases hw
    | ok written =>
      rw [hset] at hw
      cases hw
      rw [← (Frame.set_eq_ok_iff.1 hset).2]
      exact ⟨frame, rfl, rfl⟩

end

/-! ## Frames that are seen -/

namespace Scopes.Tidy

variable {s : Scopes} (h : s.Tidy) (f : Frame)

include h

/-- What is bound in the frame of the active call is seen there and not in a loop. -/
theorem seen_setLocalFrame :
    (s.setLocalFrame f).localFrame = f ∧ (s.setLocalFrame f).loopFrame? = s.loopFrame? := by
  have hview := h.view_setLocalFrame f
  have hlocals := (s.setLocalFrame f).view_locals
  rw [hview] at hlocals
  refine ⟨(List.cons.inj hlocals).1.symm, ?_⟩
  rw [loopFrame?_eq, loopFrame?_eq, hview, ScopeView.loop?_withLocal]

/-- What is bound in the frame of the innermost loop is seen there and not in a call. -/
theorem seen_setLoopFrame : (s.setLoopFrame f).localFrame = s.localFrame ∧
    (s.setLoopFrame f).loopFrame? = s.loopFrame?.map fun _ => f := by
  have hview := h.view_setLoopFrame f
  have hlocals : (s.setLoopFrame f).view.locals = s.view.locals := by
    rw [hview]
    rfl
  rw [view_locals, view_locals s] at hlocals
  refine ⟨(List.cons.inj hlocals).1, ?_⟩
  rw [loopFrame?_eq, loopFrame?_eq, hview, ScopeView.loop?_withLoop]

end Scopes.Tidy

/-! ## Reading back -/

section

variable {c d : Context} {ref : VarRef} {v : Value}

/-- Undefined gives way to what the models around bind; every other value is read back. -/
theorem reads_back_global (h : c.HoldsNames) (hscope : ref.scope = .global)
    (hw : writeVariable ref v c = (.ok (), d)) :
    (∀ read : VarRef, read.scope = .global → read.name = ref.name →
      (v ≠ .undefined → readVariable read d = (.ok v, d)) ∧
      (v = .undefined →
        readVariable read d = (.ok (d.store.seen ref.name d.models.tail), d))) ∧
    ∀ other : VarRef, other.scope ≠ .global ∨ other.name ≠ ref.name →
      (readVariable other d).1 = (readVariable other c).1 := by
  obtain ⟨τ, rfl, hbound⟩ := rebound_of_writeVariable h hscope hw
  have hholds : Context.HoldsNames { c with store := τ } :=
    fun g hg => hbound.holdsNames _ (h g hg)
  have hmodels : Context.models { c with store := τ } =
      c.scopes.globals.top.model :: c.models.tail := by
    unfold Context.models
    rw [Scopes.toList_eq_top_cons]
    rfl
  refine ⟨fun read hread hname => ?_, fun other hother => ?_⟩
  · rw [readVariable_global hholds hread, hname, hmodels]
    simp only [Store.seen, hbound.self, Option.getD_some, List.tail_cons]
    cases v with
    | undefined => exact ⟨fun hv => absurd rfl hv, fun _ => rfl⟩
    | _ => exact ⟨fun _ => rfl, nofun⟩
  · refine readVariable_congr h hholds (fun hglobal => ?_) (fun _ => rfl) fun _ => rfl
    -- a model may stand on the stack twice, but no model binds another name than before
    have hname := hother.resolve_left fun hne => hne hglobal
    exact Store.seen_congr fun m _ => hbound.other _ m hname

theorem reads_back_locals (h : c.HoldsNames) (horder : c.scopes.Tidy) (hscope : ref.scope = .locals)
    (hw : writeVariable ref v c = (.ok (), d)) :
    (∀ read : VarRef, read.scope = .locals → read.name = ref.name →
      readVariable read d = (.ok v, d)) ∧
    ∀ other : VarRef, other.scope ≠ .locals ∨ other.name ≠ ref.name →
      (readVariable other d).1 = (readVariable other c).1 := by
  have hd := eq_of_writeVariable_locals hscope hw
  obtain ⟨hself, hloop⟩ := horder.seen_setLocalFrame (c.scopes.localFrame.define ref.name v false)
  have hlocal : d.scopes.localFrame = c.scopes.localFrame.define ref.name v false := by
    rw [hd, hself]
  have hholds : d.HoldsNames := by
    rw [hd]
    exact h
  refine ⟨fun read hread hname => ?_, fun other hother => ?_⟩
  · rw [readVariable_locals hread, hlocal, Frame.get_define, if_pos hname.symm]
  · refine readVariable_congr h hholds (fun _ => ?_) (fun hlocals => ?_) fun _ => ?_
    · rw [hd]
      rfl
    · have hname := hother.resolve_left fun hne => hne hlocals
      rw [hlocal, Frame.get_define, if_neg (Ne.symm hname)]
    · rw [hd, hloop]

theorem reads_back_loop (h : c.HoldsNames) (horder : c.scopes.Tidy) (hscope : ref.scope = .loop)
    (hw : writeVariable ref v c = (.ok (), d)) :
    (∀ read : VarRef, read.scope = .loop → read.name = ref.name →
      readVariable read d = (.ok v, d)) ∧
    ∀ other : VarRef, other.scope ≠ .loop ∨ other.name ≠ ref.name →
      (readVariable other d).1 = (readVariable other c).1 := by
  obtain ⟨frame, hframe, hd⟩ := eq_of_writeVariable_loop hscope hw
  obtain ⟨hlocal, hself⟩ := horder.seen_setLoopFrame (frame.define ref.name v false)
  have hloop : d.scopes.loopFrame? = some (frame.define ref.name v false) := by
    rw [hd, hself, hframe]
    rfl
  have hglobals : d.scopes.globals = c.scopes.globals := by
    rw [hd, c.scopes.setLoopFrame_eq]
  have hstore : d.store = c.store := by rw [hd]
  have hholds : d.HoldsNames := by
    unfold Context.HoldsNames
    rw [hglobals, hstore]
    exact h
  refine ⟨fun read hread hname => ?_, fun other hother => ?_⟩
  · rw [readVariable_loop hread, hloop]
    dsimp only
    rw [Frame.get_define, if_pos hname.symm]
  · refine readVariable_congr h hholds (fun _ => ?_) (fun _ => ?_) fun hscope' => ?_
    · unfold Context.models
      rw [hglobals, hstore]
    · rw [hd, hlocal]
    · have hname := hother.resolve_left fun hne => hne hscope'
      rw [hloop, hframe, Option.map_some, Option.map_some, Frame.get_define,
        if_neg (Ne.symm hname)]

end

/-- Whatever was done with a context, as long as its models are maps and namespaces: after a write
that succeeds the variable reads as the value that was written, whatever the models around bind
under its name, unless the name is global and the value undefined; then it reads as the models
around have it. Every other name, and the same name of another scope, reads as before. And a global
name reads as the innermost model has it that binds it, if it is not bound to undefined there; it
always reads as the first value other than undefined that a model binds it to. -/
theorem written_value_reads_back {host : Host} {s : Settings} (hhost : host.Orderly s) {c : Context}
    (hc : c.Reached host s) (hmodels : c.HoldsNames) :
    (∀ (ref : VarRef) (v : Value) (d : Context), writeVariable ref v c = (.ok (), d) →
      (∀ read : VarRef, read.scope = ref.scope → read.name = ref.name →
        (ref.scope ≠ .global ∨ v ≠ .undefined → readVariable read d = (.ok v, d)) ∧
        (ref.scope = .global → v = .undefined →
          readVariable read d = (.ok (d.store.seen ref.name d.models.tail), d))) ∧
      ∀ other : VarRef, other.scope ≠ ref.scope ∨ other.name ≠ ref.name →
        (readVariable other d).1 = (readVariable other c).1) ∧
    ∀ ref : VarRef, ref.scope = .global →
      readVariable ref c = (.ok (c.store.seen ref.name c.models), c) ∧
      (∀ v, c.store.innermost? ref.name c.models = some v → v ≠ .undefined →
        readVariable ref c = (.ok v, c)) ∧
      (c.store.innermost? ref.name c.models = none → readVariable ref c = (.ok .undefined, c)) := by
  have horder : c.scopes.Tidy := (hc.inOrder hhost).scopes.pool.toSound
  refine ⟨fun ref v d hw => ?_, fun ref hscope => ?_⟩
  · cases hscope : ref.scope with
    | global =>
      obtain ⟨hself, hother⟩ := reads_back_global hmodels hscope hw
      refine ⟨fun read hread hname => ⟨fun hv => ?_, fun _ => (hself read hread hname).2⟩, hother⟩
      exact (hself read hread hname).1 (hv.resolve_left fun hne => hne rfl)
    | locals =>
      obtain ⟨hself, hother⟩ := reads_back_locals hmodels horder hscope hw
      exact ⟨fun read hread hname => ⟨fun _ => hself read hread hname, nofun⟩, hother⟩
    | loop =>
      obtain ⟨hself, hother⟩ := reads_back_loop hmodels horder hscope hw
      exact ⟨fun read hread hname => ⟨fun _ => hself read hread hname, nofun⟩, hother⟩
  · rw [readVariable_global hmodels hscope]
    refine ⟨rfl, fun v hv hne => ?_, fun hnone => ?_⟩
    · rw [Store.seen_of_innermost hv hne]
    · rw [Store.seen_of_innermost_eq_none hnone]

/-- A map that binds `x`, and an empty map over it. -/
def Context.layered : Context :=
  ((Settings.standard id).newContext.opening fun σ =>
    σ.newMap (Dictionary.empty.insert "x" (.int 1))).opening fun σ => σ.newMap .empty

theorem layered_value_reads_back :
    let x : VarRef := ⟨"x", .global, ⟨1, 1⟩⟩
    let d := (writeVariable x (.int 2) .layered).2
    writeVariable x (.int 2) .layered = (.ok (), d) ∧ readVariable x d = (.ok (.int 2), d) := by
  intro x d
  have hc : Context.layered.Reached Host.none (Settings.standard id) :=
    (Context.Reached.opened.opening _).opening _
  have hmodels : Context.layered.HoldsNames :=
    List.forall_mem_cons.2 ⟨⟨_, rfl⟩, List.forall_mem_cons.2 ⟨⟨_, rfl⟩,
      List.forall_mem_cons.2 ⟨⟨_, rfl⟩, nofun⟩⟩⟩
  have hw : writeVariable x (.int 2) .layered = (.ok (), d) := rfl
  have hreads := ((written_value_reads_back Host.none_orderly hc hmodels).1 x (.int 2) d hw).1
  exact ⟨hw, (hreads x rfl rfl).1 (.inr nofun)⟩

/-- The undefined value that is written to `x` is not read back. -/
example :
    let x : VarRef := ⟨"x", .global, ⟨1, 1⟩⟩
    (readVariable x (writeVariable x .undefined .layered).2).1 = .ok (.int 1) := rfl

end TemplateEngine
