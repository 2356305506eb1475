import TemplateEngine.Proofs.Trails.Sessions
import TemplateEngine.Proofs.Variables.ReadBack
import TemplateEngine.Proofs.Variables.Refusals

/-!
# Locking a name

Locking or unlocking a name changes one flag: in the frame of the active call or of the innermost
loop, in the namespace that is the innermost model, or beside any other innermost model
(`exists_flags`). A name that is not bound yet is bound to undefined on the way, which no read can
tell from a name that is not bound (`readVariable_alike`). Where a name is locked, writes are
refused (`writeVariable_of_locksName`).
-/

namespace TemplateEngine

open TemplateEngine.Action

/-! ## Stores that read alike -/

/-- Both cells show the same values, and differ in the locks of a namespace at most. -/
inductive Cell.ReadsAs : Cell → Cell → Prop
  | refl (x : Cell) : ReadsAs x x
  | names {f g : Frame} : (∀ name, f.get name = g.get name) → ReadsAs (.names f) (.names g)

/-- Both stores show the same values. -/
structure Store.ReadsAs (σ τ : Store) : Prop where
  cells (r : Ref) : Option.Rel Cell.ReadsAs (σ.cell? r) (τ.cell? r)
  nextIdentity : σ.nextIdentity = τ.nextIdentity

namespace Store.ReadsAs

variable {σ τ : Store}

protected theorem refl (σ : Store) : σ.ReadsAs σ := by
  refine ⟨fun r => ?_, rfl⟩
  cases σ.cell? r with
  | none => exact .none
  | some x => exact .some (.refl x)

theorem put {r : Ref} {f g : Frame} (h : σ.cell? r = some (.names f))
    (hget : ∀ name, f.get name = g.get name) : σ.ReadsAs (σ.put r (.names g)) := by
  refine ⟨fun q => ?_, rfl⟩
  by_cases hq : r = q
  · subst hq
    rw [cell?_put_self h, h]
    exact .some (.names hget)
  · rw [cell?_put_of_ne σ _ hq]
    exact (ReadsAs.refl σ).cells q

theorem fresh (h : σ.ReadsAs τ) : σ.fresh.2.ReadsAs τ.fresh.2 :=
  ⟨h.cells, congrArg (· + 1) h.nextIdentity⟩

section

variable (h : σ.ReadsAs τ) (r : Ref)

include h

theorem items : σ.items r = τ.items r := by
  have hcells := h.cells r
  unfold Store.items
  generalize σ.cell? r = x at hcells ⊢
  generalize τ.cell? r = y at hcells ⊢
  rcases hcells with ⟨(_ | _)⟩ | _ <;> rfl

theorem entries : σ.entries r = τ.entries r := by
  have hcells := h.cells r
  unfold Store.entries
  generalize σ.cell? r = x at hcells ⊢
  generalize τ.cell? r = y at hcells ⊢
  rcases hcells with ⟨(_ | _)⟩ | _ <;> rfl

theorem record : σ.record r = τ.record r := by
  have hcells := h.cells r
  unfold Store.record
  generalize σ.cell? r = x at hcells ⊢
  generalize τ.cell? r = y at hcells ⊢
  rcases hcells with ⟨(_ | _)⟩ | _ <;> rfl

theorem objectType : σ.objectType r = τ.objectType r := by
  have hcells := h.cells r
  unfold Store.objectType
  generalize σ.cell? r = x at hcells ⊢
  generalize τ.cell? r = y at hcells ⊢
  rcases hcells with ⟨(_ | _)⟩ | _ <;> rfl

theorem objectGet (name : String) : σ.objectGet r name = τ.objectGet r name := by
  have hcells := h.cells r
  unfold Store.objectGet
  generalize σ.cell? r = x at hcells ⊢
  generalize τ.cell? r = y at hcells ⊢
  rcases hcells with ⟨(_ | hget)⟩ | _
  · rfl
  · exact hget name
  · rfl

end

theorem typeName (h : σ.ReadsAs τ) (v : Value) : σ.typeName v = τ.typeName v := by
  cases v with
  | object r => exact h.objectType r
  | record r => exact congrArg Record.type (h.record r)
  | _ => rfl

theorem resolve (h : σ.ReadsAs τ) (a : MemberAccessors) (v : Value) :
    a.resolve σ v = a.resolve τ v := by
  have hkey : σ.typeKey v = τ.typeKey v := by
    cases v with
    | record r => exact congrArg (fun x : Record => TypeKey.record x.type) (h.record r)
    | list r | array r => rfl
    | _ => exact congrArg TypeKey.builtin (h.typeName _)
  cases v with
  | undefined | null | object r | map r => rfl
  | _ => simp only [MemberAccessors.resolve, hkey, h.typeName]

theorem readMember (h : σ.ReadsAs τ) (m : Member) (v : Value) : m.read σ v = m.read τ v := by
  cases m with
  | length => cases v <;> simp only [Member.read, h.items]
  | field read write => cases v <;> simp only [Member.read, h.record]

theorem get (h : σ.ReadsAs τ) (a : MemberAccessor) (v : Value) (name : String) :
    a.get σ v name = a.get τ v name := by
  cases a with
  | none => cases v <;> rfl
  | object => cases v <;> simp only [MemberAccessor.get, h.objectGet]
  | map => cases v <;> simp only [MemberAccessor.get, h.entries]
  | reflected table => cases v <;> simp only [MemberAccessor.get, h.readMember]

end Store.ReadsAs

/-! ## Reading -/

/-- On stores that read alike, and whatever the scopes are, the action gives the same and leaves
such stores. -/
def Action.ReadsAlike {α : Type} (x : Action α) : Prop :=
  ∀ (c : Context) (τ : Store) (s : Scopes), c.store.ReadsAs τ → ∃ τ', (x c).2.store.ReadsAs τ' ∧
    x { c with store := τ, scopes := s } = ((x c).1, { (x c).2 with store := τ', scopes := s })

namespace Action.ReadsAlike

variable {α β : Type}

theorem pure (a : α) : ReadsAlike (pure a : Action α) := fun _ τ _ h => ⟨τ, h, rfl⟩

theorem bind {x : Action α} {f : α → Action β} (hx : x.ReadsAlike) (hf : ∀ a, (f a).ReadsAlike) :
    (x >>= f).ReadsAlike := by
  intro c τ s h
  obtain ⟨τ', hτ', hafter⟩ := hx c τ s h
  rcases hc : x c with ⟨a | e | _, d⟩ <;> rw [hc] at hτ' hafter
  · rw [bind_of_ok hc, bind_of_ok hafter]
    exact hf a d τ' s hτ'
  · rw [bind_of_error hc, bind_of_error hafter]
    exact ⟨τ', hτ', rfl⟩
  · rw [bind_of_outOfFuel hc, bind_of_outOfFuel hafter]
    exact ⟨τ', hτ', rfl⟩

theorem readMember (target : Value) (name : String) : (readMember target name).ReadsAlike := by
  refine bind (fun c τ s h => ⟨τ, h, ?_⟩) fun a =>
    bind (fun c τ s h => ⟨τ, h, ?_⟩) fun answer => ?_
  · simp only [memberAccessor, h.resolve]
  · simp only [inStore, view, h.get]
  · cases answer with
    | value v => exact .pure v
    | newFunction name operation =>
      intro c τ s h
      refine ⟨τ.fresh.2, h.fresh, ?_⟩
      simp only [realise, onStore, Store.newNative, Store.fresh, h.nextIdentity]

theorem readGlobal (name : String) (gs : List GlobalFrame) : (readGlobal name gs).ReadsAlike := by
  induction gs with
  | nil => exact .pure _
  | cons g rest ih =>
    refine bind (readMember g.model name) fun v => ?_
    split
    · exact ih
    · exact .pure v

end Action.ReadsAlike

/-- Reading looks at models, not at what is locked on them. -/
theorem readGlobal_congr (name : String) {gs hs : List GlobalFrame}
    (h : hs.map (·.model) = gs.map (·.model)) : readGlobal name hs = readGlobal name gs := by
  induction gs generalizing hs with
  | nil =>
    rw [List.map_nil, List.map_eq_nil_iff] at h
    rw [h]
  | cons g rest ih =>
    obtain ⟨g', rest', rfl, hmodel, hrest⟩ := List.map_eq_cons_iff.1 h
    rw [Action.readGlobal, Action.readGlobal, hmodel, ih hrest]

/-- Every variable reads alike if all that is read for it does. -/
theorem readVariable_alike {c : Context} {τ : Store} {s : Scopes} (hstore : c.store.ReadsAs τ)
    (hmodels : s.globals.toList.map (·.model) = c.scopes.globals.toList.map (·.model))
    (hlocal : ∀ name, s.localFrame.get name = c.scopes.localFrame.get name)
    (hloop : ∀ name, s.loopFrame?.map (·.get name) = c.scopes.loopFrame?.map (·.get name))
    (ref : VarRef) :
    (readVariable ref { c with store := τ, scopes := s }).1 = (readVariable ref c).1 := by
  cases hscope : ref.scope with
  | global =>
    obtain ⟨τ', -, hread⟩ := ReadsAlike.readGlobal ref.name c.scopes.globals.toList c τ s hstore
    simp only [readVariable, hscope, bind_apply, view]
    rw [readGlobal_congr ref.name hmodels, hread]
  | locals =>
    simp only [readVariable, hscope]
    exact congrArg Outcome.ok (hlocal ref.name)
  | loop =>
    have hframe := hloop ref.name
    simp only [readVariable, hscope, bind_apply, view]
    generalize s.loopFrame? = f at hframe ⊢
    generalize c.scopes.loopFrame? = g at hframe ⊢
    cases f with
    | none => cases g with
      | none => rfl
      | some g => cases hframe
    | some f => cases g with
      | none => cases hframe
      | some g => exact congrArg Outcome.ok (Option.some.inj hframe)

/-! ## Where locks are kept -/

/-- Whether a value that keeps locks itself has the name locked. -/
def Store.locksName (σ : Store) (name : String) : Value → Bool
  | .object r =>
    match σ.cell? r with
    | some (.names f) => f.isReadOnly name
    | _ => false
  | _ => false

theorem Store.locksName_iff {σ : Store} {name : String} {v : Value} : σ.locksName name v = true ↔
    ∃ r, v = .object r ∧ σ.Has r fun x => ∃ f, x = .names f ∧ f.isReadOnly name = true := by
  cases v with
  | object r =>
    simp only [locksName, Has]
    rcases hcell : σ.cell? r with _ | (_ | _ | _ | _ | _) <;> simp [hcell]
  | _ => simp [locksName]

/-- Whether a value that keeps no locks reports the name as locked all the same, which only an
object of the host does. -/
def Store.claimsLocked (σ : Store) (name : String) : Value → Bool
  | .object r =>
    match σ.cell? r with
    | some (.capability x) => x.isReadOnly name
    | _ => false
  | _ => false

theorem Store.reportsLocked_eq (σ : Store) (name : String) (v : Value) :
    σ.reportsLocked name v = (σ.locksName name v || σ.claimsLocked name v) := by
  cases v with
  | object r =>
    simp only [reportsLocked, objectIsReadOnly, locksName, claimsLocked]
    rcases σ.cell? r with _ | (_ | _ | _ | _ | _) <;> simp
  | _ => rfl

namespace Context

/-- Whether a name is locked in the frame that writes of the scope go to. -/
def locksName (c : Context) (name : String) : ScopeKind → Bool
  | .global =>
    let g := c.scopes.globals.top
    g.readOnly.contains name || c.store.locksName name g.model
  | .locals => c.scopes.localFrame.isReadOnly name
  | .loop => (c.scopes.loopFrame?.map fun f => f.isReadOnly name).getD false

/-- Whether writes of the scope go to an object of the host that reports the name as locked, though
it keeps no locks. -/
def claimsLocked (c : Context) (name : String) : ScopeKind → Bool
  | .global => c.store.claimsLocked name c.scopes.globals.top.model
  | .locals | .loop => false

theorem isReadOnly_eq (c : Context) (ref : VarRef) :
    c.isReadOnly ref = (c.locksName ref.name ref.scope || c.claimsLocked ref.name ref.scope) := by
  cases hscope : ref.scope with
  | global =>
    rw [c.isReadOnly_global hscope, Store.reportsLocked_eq, ← Bool.or_assoc]
    rfl
  | locals | loop => simp [isReadOnly, locksName, claimsLocked, hscope]

/-- Models that keep locks themselves are locked nowhere else. -/
def LocksInside (c : Context) : Prop :=
  ∀ g ∈ c.scopes.globals.toList, c.store.KeepsLocks g.model → g.readOnly = []

/-- The number of open frames of a scope. -/
def height (c : Context) : ScopeKind → Nat
  | .global => c.scopes.globals.size
  | .locals => c.scopes.locals.size
  | .loop => c.scopes.loops.length

end Context

/-- Where a name is locked, writes are refused, and nothing changes. -/
theorem writeVariable_of_locksName {c : Context} {name : String} {scope : ScopeKind}
    (h : c.locksName name scope = true) (p : Position) (v : Value) :
    writeVariable ⟨name, scope, p⟩ v c = (.error (.script p (.readOnlyVariable name)), c) := by
  cases scope with
  | global =>
    simp only [writeVariable, bind_apply, view]
    cases hflag : c.scopes.globals.top.readOnly.contains name with
    | true => rfl
    | false =>
      simp only [Context.locksName, hflag, Bool.false_or] at h
      obtain ⟨r, hmodel, _, hcell, f, rfl, hf⟩ := Store.locksName_iff.1 h
      have hset : f.set name v = .error .readOnly := Frame.set_eq_error_iff.2 ⟨hf, rfl⟩
      simp only [hmodel, writeMember, memberAccessor, MemberAccessors.resolve, onStore, bind_apply,
        MemberAccessor.set, Store.objectSet, hcell, hset, Except.map, failAt, fail,
        Bool.false_eq_true, if_false]
  | locals =>
    have hset : c.scopes.localFrame.set name v = .error .readOnly :=
      Frame.set_eq_error_iff.2 ⟨h, rfl⟩
    simp only [writeVariable, bind_apply, view, hset, failAt, fail]
  | loop =>
    cases hf : c.scopes.loopFrame? with
    | none => simp [Context.locksName, hf] at h
    | some f =>
      have hset : f.set name v = .error .readOnly :=
        Frame.set_eq_error_iff.2 ⟨by simpa [Context.locksName, hf] using h, rfl⟩
      simp only [writeVariable, bind_apply, view, hf, hset, failAt, fail]

/-! ## Locking -/

section

variable {c : Context} {ref : VarRef} (readOnly : Bool)

/-- One name is locked or unlocked in the frame that writes to it go to, and nothing else shows. -/
structure Context.Flags (c : Context) (ref : VarRef) (readOnly : Bool) (d : Context) : Prop where
  acts : setReadOnly ref readOnly c = (.ok (), d)
  locks (name : String) : d.locksName name ref.scope =
    if name = ref.name then readOnly else c.locksName name ref.scope
  claims (name : String) : d.claimsLocked name ref.scope = c.claimsLocked name ref.scope
  height (scope : ScopeKind) : d.height scope = c.height scope
  reads (any : VarRef) : (readVariable any d).1 = (readVariable any c).1

theorem flags_namespace (hscope : ref.scope = .global) {r : Ref} {f : Frame}
    (hmodel : c.scopes.globals.top.model = .object r) (hcell : c.store.cell? r = some (.names f))
    (hinside : c.scopes.globals.top.readOnly = []) :
    c.Flags ref readOnly
      { c with store := c.store.put r (.names (f.setReadOnly ref.name readOnly)) } := by
  have hput := Store.cell?_put_self (c := .names (f.setReadOnly ref.name readOnly)) hcell
  refine ⟨?_, fun name => ?_, fun name => ?_, fun _ => rfl, fun any => ?_⟩
  · simp only [setReadOnly, hscope, Action.modify, hmodel, Store.objectSetReadOnly?, hcell]
  · simp [Context.locksName, Store.locksName, hscope, hmodel, hinside, hcell, hput, eq_comm]
  · simp [Context.claimsLocked, Store.claimsLocked, hscope, hmodel, hcell, hput]
  · exact readVariable_alike (.put hcell fun name => by simp) rfl (fun _ => rfl) (fun _ => rfl) any

theorem flags_global (hscope : ref.scope = .global)
    (hfree : ¬ c.store.KeepsLocks c.scopes.globals.top.model) :
    c.Flags ref readOnly { c with scopes := c.scopes.flagGlobal ref.name readOnly } := by
  have htop : (c.scopes.flagGlobal ref.name readOnly).globals.top =
      ⟨c.scopes.globals.top.model, if readOnly
        then ref.name :: c.scopes.globals.top.readOnly.filter (· ≠ ref.name)
        else c.scopes.globals.top.readOnly.filter (· ≠ ref.name)⟩ :=
    Stack.top_modifyTop _ _
  have hkept (r : Ref) (hmodel : c.scopes.globals.top.model = .object r) (f : Frame) :
      c.store.cell? r ≠ some (.names f) := fun hcell => hfree ⟨r, f, hmodel, hcell⟩
  refine ⟨?_, fun name => ?_, fun name => ?_, fun scope => ?_, fun any => ?_⟩
  · simp only [setReadOnly, hscope, Action.modify]
    split
    · next store hstore =>
      split at hstore
      · next r hmodel =>
        unfold Store.objectSetReadOnly? at hstore
        split at hstore
        · next f hcell => exact absurd hcell (hkept r hmodel f)
        · cases hstore
      · cases hstore
    · rfl
  · have hnone : c.store.locksName name c.scopes.globals.top.model = false := by
      unfold Store.locksName
      split
      · next r hmodel =>
        split
        · next f hcell => exact absurd hcell (hkept r hmodel f)
        · rfl
      · rfl
    simp only [Context.locksName, hscope, htop, hnone, Bool.or_false]
    by_cases hname : name = ref.name <;> cases readOnly <;> simp [hname]
  · simp [Context.claimsLocked, hscope, htop]
  · cases scope with
    | global => exact Stack.size_modifyTop _ _
    | locals | loop => rfl
  · refine readVariable_alike (s := c.scopes.flagGlobal ref.name readOnly) (.refl _) ?_
      (fun _ => rfl) (fun _ => rfl) any
    change (c.scopes.globals.modifyTop _).toList.map _ = _
    rw [Stack.toList_modifyTop, Scopes.toList_eq_top_cons c.scopes.globals]
    rfl

theorem flags_locals (h : c.scopes.Tidy) (hscope : ref.scope = .locals) :
    c.Flags ref readOnly { c with
      scopes := c.scopes.setLocalFrame (c.scopes.localFrame.setReadOnly ref.name readOnly) } := by
  obtain ⟨hlocal, hloop⟩ :=
    h.seen_setLocalFrame (c.scopes.localFrame.setReadOnly ref.name readOnly)
  refine ⟨?_, fun name => ?_, fun _ => ?_, fun scope => ?_, fun any => ?_⟩
  · simp only [setReadOnly, hscope, Action.modify]
  · simp [Context.locksName, hscope, hlocal, eq_comm]
  · simp only [Context.claimsLocked, hscope]
  · cases scope <;> rfl
  · exact readVariable_alike (s := c.scopes.setLocalFrame _) (.refl _) rfl
      (fun name => by simp [hlocal]) (fun name => by rw [hloop]) any

theorem flags_loop (h : c.scopes.Tidy) (hscope : ref.scope = .loop) {f : Frame}
    (hf : c.scopes.loopFrame? = some f) :
    c.Flags ref readOnly
      { c with scopes := c.scopes.setLoopFrame (f.setReadOnly ref.name readOnly) } := by
  obtain ⟨hlocal, hloop⟩ := h.seen_setLoopFrame (f.setReadOnly ref.name readOnly)
  refine ⟨?_, fun name => ?_, fun _ => ?_, fun scope => ?_, fun any => ?_⟩
  · simp only [setReadOnly, hscope, bind_apply, Action.view, hf, Action.modify]
  · simp [Context.locksName, hscope, hloop, hf, eq_comm]
  · simp only [Context.claimsLocked, hscope]
  · unfold Scopes.setLoopFrame
    cases scope <;> split <;> rfl
  · exact readVariable_alike (.refl _) (by rw [Scopes.globals_setLoopFrame])
      (fun name => by rw [hlocal]) (fun name => by simp [hloop, hf]) any

/-- Wherever there is a frame, a name can be locked and unlocked in it. -/
theorem exists_flags (h : c.scopes.Tidy) (hinside : c.LocksInside)
    (hframe : 0 < c.height ref.scope) : ∃ d, c.Flags ref readOnly d := by
  cases hscope : ref.scope with
  | global =>
    by_cases hkept : c.store.KeepsLocks c.scopes.globals.top.model
    · have hmem : c.scopes.globals.top ∈ c.scopes.globals.toList := by
        rw [Scopes.toList_eq_top_cons]
        exact List.mem_cons_self
      have hnone := hinside _ hmem hkept
      obtain ⟨r, f, hmodel, hcell⟩ := hkept
      exact ⟨_, flags_namespace readOnly hscope hmodel hcell hnone⟩
    · exact ⟨_, flags_global readOnly hscope hkept⟩
  | locals => exact ⟨_, flags_locals readOnly h hscope⟩
  | loop =>
    cases hf : c.scopes.loopFrame? with
    | some f => exact ⟨_, flags_loop readOnly h hscope hf⟩
    | none =>
      simp only [Scopes.loopFrame?, Option.map_eq_none_iff, List.head?_eq_none_iff] at hf
      simp [hscope, Context.height, hf] at hframe

end

end TemplateEngine
