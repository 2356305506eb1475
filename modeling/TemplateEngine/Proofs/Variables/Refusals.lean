import TemplateEngine.Proofs.Contexts.Order

/-!
# Refused writes

Whether a write is refused, and why, does not depend on the value that is to be written. A value
refuses to have a member written that is locked, that cannot be written or that it does not have
(`Settings.refusal?`), and a variable is refused if its scope refuses it (`Context.writeFault?`).
Asking whether a variable is locked looks at the locks alone: it foretells the refusals of maps,
namespaces, calls and loops, but not those of declared members that cannot be written, and objects
of the host are taken at their word (`lock_query_foretells_refusal`).
-/

namespace TemplateEngine

open TemplateEngine.Action

variable {s : Settings}

/-! ## Members -/

/-- Whether a member can be written. -/
def Member.isWritable : Member → Bool
  | .length => false
  | .field _ write => write.isSome

/-- The declared members of a value, under the names that templates use. -/
def Settings.declared (s : Settings) (σ : Store) (v : Value) : Dictionary Member :=
  MemberTable.membersOf s.transform (s.shapes.get (σ.typeKey v))

/-- Why a value refuses that a declared member of it is written, if it does. -/
def Settings.declaredRefusal? (s : Settings) (σ : Store) (name : String) (v : Value) :
    Option AccessFault :=
  match (s.declared σ v).get? name with
  | some m => if m.isWritable then none else some .readOnly
  | none => some .noSuchMember

/-- Why an object refuses that a member of it is written, if it does. -/
def Store.objectRefusal? (σ : Store) (r : Ref) (name : String) : Option AccessFault :=
  match σ.cell? r with
  | some (.names f) => if f.isReadOnly name then some .readOnly else none
  | some (.capability c) => c.refuses name
  | _ => some .noSuchMember

/-- Why a value refuses that a member of it is written, if it does. -/
def Settings.refusal? (s : Settings) (σ : Store) (name : String) : Value → Option AccessFault
  | .undefined | .null => some .noSuchMember
  | .map _ => none
  | .object r => σ.objectRefusal? r name
  | v => s.declaredRefusal? σ name v

section

variable {σ : Store} {v : Value} {name : String} (value : Value) (fault : AccessFault)

/-- A declared member is a member of the kind of value that it is declared for. -/
theorem Settings.write_declared {m : Member} (h : (s.declared σ v).get? name = some m) :
    m.write σ v value = .error fault ↔ m.isWritable = false ∧ .readOnly = fault := by
  obtain ⟨⟨key, m'⟩, hmem, rfl⟩ := MemberTable.mem_of_membersOf h
  cases v with
  | list r | array r =>
    cases List.mem_singleton.1 hmem
    simp [Member.write, Member.isWritable]
  | record r =>
    cases m' with
    | length => simp [Member.write, Member.isWritable]
    | field read write => cases write <;> simp [Member.write, Member.isWritable]
  | _ => cases hmem

theorem MemberAccessor.set_reflected {table : MemberTable}
    (h : table.members = s.declared σ v) :
    (reflected table).set σ v name value = .error fault ↔
      s.declaredRefusal? σ name v = some fault := by
  have hset : (reflected table).set σ v name value =
      match (s.declared σ v).get? name with
      | some m => m.write σ v value
      | .none => .error .noSuchMember := by
    rw [← h]
    cases v <;> rfl
  rw [hset, Settings.declaredRefusal?]
  cases hm : (s.declared σ v).get? name with
  | none => simp
  | some m =>
    dsimp only
    rw [Settings.write_declared value fault hm]
    cases m.isWritable <;> simp

theorem Store.objectSet_eq_error_iff {r : Ref} :
    σ.objectSet r name value = .error fault ↔ σ.objectRefusal? r name = some fault := by
  unfold objectSet objectRefusal?
  cases σ.cell? r with
  | none => simp
  | some cell =>
    cases cell with
    | names f =>
      cases hf : f.set name value with
      | error e =>
        obtain ⟨hlocked, rfl⟩ := Frame.set_eq_error_iff.1 hf
        simp [hf, hlocked, Except.map]
      | ok g => simp [hf, (Frame.set_eq_ok_iff.1 hf).1, Except.map]
    | capability c => cases hc : c.refuses name <;> simp [hc]
    | _ => simp

/-- The rule for a value refuses what the value is said to refuse. -/
theorem MemberAccessors.Sound.set_resolve {a : MemberAccessors}
    (h : a.Sound s.shapes s.transform) :
    (a.resolve σ v).1.set σ v name value = .error fault ↔ s.refusal? σ name v = some fault := by
  cases v with
  | undefined | null | map r =>
    simp [MemberAccessors.resolve, MemberAccessor.set, Settings.refusal?]
  | object r => exact Store.objectSet_eq_error_iff value fault
  | bool | int | float | text | list | array | record | function =>
    exact MemberAccessor.set_reflected value fault (h.table _ _).1

end

/-- Writing a member leaves the rest of the context alone, and what values refer to as well if it is
refused. -/
theorem Action.writeMember_cases {c : Context} (h : c.members.Sound s.shapes s.transform)
    (model : Value) (name : String) (v : Value) :
    (∃ members fault, s.refusal? c.store name model = some fault ∧
      writeMember model name v c = (.ok (.error fault), { c with members := members })) ∨
    ∃ members store, s.refusal? c.store name model = none ∧
      writeMember model name v c =
        (.ok (.ok ()), { c with members := members, store := store }) := by
  have hset (fault : AccessFault) :
      (c.members.resolve c.store model).1.set c.store model name v = .error fault ↔
        s.refusal? c.store name model = some fault := h.set_resolve v fault
  simp only [writeMember, memberAccessor, onStore, bind_apply]
  generalize c.members.resolve c.store model = resolved at hset ⊢
  obtain ⟨accessor, members⟩ := resolved
  dsimp only at hset ⊢
  cases hw : accessor.set c.store model name v with
  | error fault => exact .inl ⟨members, fault, (hset fault).1 hw, rfl⟩
  | ok store =>
    refine .inr ⟨members, store, ?_, rfl⟩
    rw [Option.eq_none_iff_forall_ne_some]
    intro fault hfault
    rw [(hset fault).2 hfault] at hw
    cases hw

/-! ## Variables -/

/-- Why a write to a variable is refused, if it is. -/
def Context.writeFault? (s : Settings) (c : Context) (ref : VarRef) : Option ScriptFault :=
  match ref.scope with
  | .global =>
    let g := c.scopes.globals.top
    if g.readOnly.contains ref.name then some (.readOnlyVariable ref.name)
    else
      match s.refusal? c.store ref.name g.model with
      | some .readOnly => some (.readOnlyVariable ref.name)
      | some .noSuchMember => some (.noSuchMember (c.store.typeName g.model) ref.name)
      | none => none
  | .locals =>
    if c.scopes.localFrame.isReadOnly ref.name then some (.readOnlyVariable ref.name) else none
  | .loop =>
    match c.scopes.loopFrame? with
    | none => some (.loopVariableOutsideLoop ref.name)
    | some frame => if frame.isReadOnly ref.name then some (.readOnlyVariable ref.name) else none

/-- A write that is refused leaves the context as it is, apart from the table of members that was
looked up, and every other write succeeds. -/
theorem Action.writeVariable_cases {c : Context} (h : c.members.Sound s.shapes s.transform)
    (ref : VarRef) (v : Value) :
    (∃ members fault, c.writeFault? s ref = some fault ∧ writeVariable ref v c =
      (.error (.script ref.position fault), { c with members := members })) ∨
    c.writeFault? s ref = none ∧ ∃ d, writeVariable ref v c = (.ok (), d) := by
  cases hscope : ref.scope with
  | global =>
    simp only [writeVariable, Context.writeFault?, hscope, bind_apply, view]
    split
    · exact .inl ⟨c.members, _, rfl, rfl⟩
    · obtain ⟨members, fault, hr, hw⟩ | ⟨members, store, hr, hw⟩ :=
        writeMember_cases h c.scopes.globals.top.model ref.name v
      · cases fault <;> exact .inl ⟨members, _, by rw [hr], by rw [bind_of_ok hw]; rfl⟩
      · exact .inr ⟨by rw [hr], _, by rw [bind_of_ok hw]; rfl⟩
  | locals =>
    simp only [writeVariable, Context.writeFault?, hscope, bind_apply, view]
    cases hf : c.scopes.localFrame.set ref.name v with
    | error e =>
      rw [if_pos (Frame.set_eq_error_iff.1 hf).1]
      exact .inl ⟨c.members, _, rfl, rfl⟩
    | ok g =>
      rw [(Frame.set_eq_ok_iff.1 hf).1]
      exact .inr ⟨rfl, _, rfl⟩
  | loop =>
    simp only [writeVariable, Context.writeFault?, hscope, bind_apply, view]
    cases c.scopes.loopFrame? with
    | none => exact .inl ⟨c.members, _, rfl, rfl⟩
    | some frame =>
      dsimp only
      cases hf : frame.set ref.name v with
      | error e =>
        rw [if_pos (Frame.set_eq_error_iff.1 hf).1]
        exact .inl ⟨c.members, _, rfl, rfl⟩
      | ok g =>
        rw [(Frame.set_eq_ok_iff.1 hf).1]
        exact .inr ⟨rfl, _, rfl⟩

/-! ## The query -/

/-- The write is refused because the variable is locked. -/
def Context.RefusesAsLocked (c : Context) (ref : VarRef) (v : Value) : Prop :=
  (writeVariable ref v c).1 = .error (.script ref.position (.readOnlyVariable ref.name))

theorem Context.refusesAsLocked_iff {c : Context} (h : c.members.Sound s.shapes s.transform)
    (ref : VarRef) (v : Value) :
    c.RefusesAsLocked ref v ↔ c.writeFault? s ref = some (.readOnlyVariable ref.name) := by
  unfold RefusesAsLocked
  obtain ⟨members, fault, hfault, hw⟩ | ⟨hnone, d, hw⟩ := writeVariable_cases h ref v
  · rw [hfault, hw]
    simp
  · rw [hnone, hw]
    simp

/-- Whether a model reports a name as locked. -/
def Store.reportsLocked (σ : Store) (name : String) : Value → Bool
  | .object r => σ.objectIsReadOnly r name
  | _ => false

/-- The model refuses otherwise than it reports: an object of the host does, or a declared member
that cannot be written. -/
def Settings.Conceals (s : Settings) (σ : Store) (name : String) : Value → Prop
  | .undefined | .null | .map _ => False
  | .object r => ∃ x, σ.cell? r = some (.capability x) ∧
    ¬ (x.isReadOnly name = true ↔ x.refuses name = some .readOnly)
  | v => ∃ m, (s.declared σ v).get? name = some m ∧ m.isWritable = false

theorem Settings.refuses_as_reported_iff (s : Settings) (σ : Store) (name : String) (v : Value) :
    (σ.reportsLocked name v = true ↔ s.refusal? σ name v = some .readOnly) ↔
      ¬ s.Conceals σ name v := by
  -- only objects report a lock; of the others, only those with declared members refuse as locked
  cases v with
  | undefined | null | map r => simp [Store.reportsLocked, refusal?, Conceals]
  | object r =>
    simp only [Store.reportsLocked, refusal?, Conceals, Store.objectIsReadOnly,
      Store.objectRefusal?]
    cases σ.cell? r with
    | none => simp
    | some cell => cases cell <;> simp
  | bool | int | float | text | list | array | record | function =>
    simp only [Store.reportsLocked, refusal?, Conceals, declaredRefusal?]
    generalize (s.declared σ _).get? name = found
    cases found with
    | none => simp
    | some m => cases hm : m.isWritable <;> simp [hm]

theorem Context.isReadOnly_global (c : Context) {ref : VarRef} (hscope : ref.scope = .global) :
    c.isReadOnly ref = (c.scopes.globals.top.readOnly.contains ref.name ||
      c.store.reportsLocked ref.name c.scopes.globals.top.model) := by
  simp only [Context.isReadOnly, hscope]
  generalize c.scopes.globals.top.model = model
  cases model <;> rfl

theorem Context.locked_writeFault_iff (c : Context) {ref : VarRef} (hscope : ref.scope = .global) :
    c.writeFault? s ref = some (.readOnlyVariable ref.name) ↔
      c.scopes.globals.top.readOnly.contains ref.name = true ∨
        s.refusal? c.store ref.name c.scopes.globals.top.model = some .readOnly := by
  simp only [Context.writeFault?, hscope]
  cases c.scopes.globals.top.readOnly.contains ref.name with
  | true => simp
  | false =>
    cases s.refusal? c.store ref.name c.scopes.globals.top.model with
    | none => simp
    | some fault => cases fault <;> simp

/-- Whatever was done with a context, asking whether a variable is locked foretells whether a write
of any value to it is refused for that reason. There is one exception: the variable is global, the
name is not locked from outside, and the innermost model is an object of the host that refuses
otherwise than it reports, or has the name as a declared member that cannot be written, which is
never reported. -/
theorem lock_query_foretells_refusal {host : Host} (hhost : host.Orderly s) {c : Context}
    (hc : c.Reached host s) (ref : VarRef) (v : Value) :
    (c.isReadOnly ref = true ↔ c.RefusesAsLocked ref v) ↔
      ¬ (ref.scope = .global ∧ c.scopes.globals.top.readOnly.contains ref.name = false ∧
        s.Conceals c.store ref.name c.scopes.globals.top.model) := by
  rw [c.refusesAsLocked_iff (hc.inOrder hhost).members ref v]
  cases hscope : ref.scope with
  | global =>
    rw [c.isReadOnly_global hscope, c.locked_writeFault_iff hscope]
    cases c.scopes.globals.top.readOnly.contains ref.name with
    | true => simp
    | false =>
      simp only [Bool.false_or, Bool.false_eq_true, false_or, true_and]
      exact s.refuses_as_reported_iff c.store ref.name c.scopes.globals.top.model
  | locals =>
    simp only [Context.isReadOnly, Context.writeFault?, hscope]
    cases c.scopes.localFrame.isReadOnly ref.name <;> simp
  | loop =>
    simp only [Context.isReadOnly, Context.writeFault?, hscope]
    cases c.scopes.loopFrame? with
    | none => simp
    | some frame => cases hf : frame.isReadOnly ref.name <;> simp [hf]

/-- A list does not report that its length cannot be written. -/
theorem length_of_list_is_concealed :
    let ref : VarRef := ⟨"length", .global, ⟨1, 1⟩⟩
    let c := (Settings.standard id).newContext.opening fun σ => σ.newList [.int 1]
    ¬ (c.isReadOnly ref = true ↔ c.RefusesAsLocked ref .null) := by
  intro ref c
  have hc : c.Reached Host.none (Settings.standard id) := Context.Reached.opened.opening _
  rw [lock_query_foretells_refusal Host.none_orderly hc ref .null, not_not]
  exact ⟨rfl, rfl, .length, rfl, rfl⟩

end TemplateEngine
