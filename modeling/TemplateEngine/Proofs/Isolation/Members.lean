import TemplateEngine.Members.Accessor
import TemplateEngine.Proofs.Isolation.Growth

/-!
# Members alike

The host's part of a shape is code that is not known here. It is supposed to work on the record that
it is handed and to know nothing of the numbers of places and functions (`Shapes.Uniform`). Then
members of values that are alike read and write alike. Tables of members that were kept say what a
table made now would say (`MemberAccessors.Sound`), so it makes no difference which of the two runs
has found which of them already.
-/

namespace TemplateEngine

/-! ## Declared members -/

/-- Readings that give values alike, or functions that are made for the reading. -/
inductive Answer.Alike (w : Pairing) : Answer → Answer → Prop
  | value {a b : Value} : a.Alike w b → Alike w (.value a) (.value b)
  | newFunction (name operation : String) :
    Alike w (.newFunction name operation) (.newFunction name operation)

/-- The member does the same for records that are alike. -/
inductive Member.Uniform : Member → Prop
  | length : Uniform .length
  | field {read : Record → Answer} {write : Option (Store → Record → Value → Record)} :
    (∀ {w : Pairing} {x y : Record}, x.Alike w y → (read x).Alike w (read y)) →
    (∀ f ∈ write, ∀ {w : Pairing} {s t : Store} {x y : Record} {a b : Value},
      s.Alike w t → x.Alike w y → a.Alike w b → (f s x a).Alike w (f t y b)) →
    Uniform (.field read write)

/-- All members of all record types do the same for records that are alike. -/
def Shapes.Uniform (s : Shapes) : Prop := ∀ key, ∀ p ∈ s.get key, p.2.Uniform

section

variable {w : Pairing} {s t : Store} (h : s.Alike w t) {m : Member} (hm : m.Uniform) {a b : Value}
  (hab : a.Alike w b)

include h hm hab

theorem Member.Uniform.read : (m.read s a).Alike w (m.read t b) := by
  cases hm with
  | length =>
    cases hab with
    | list hr | array hr =>
      simp only [Member.read, (h.items hr).length_eq]
      exact .value (.int _)
    | _ => exact .value .undefined
  | field hread hwrite =>
    cases hab with
    | record hr => exact hread (h.record hr)
    | _ => exact .value .undefined

theorem Member.Uniform.write {x y : Value} (hxy : x.Alike w y) :
    ExceptAlike (StoreStep w w s t) (m.write s a x) (m.write t b y) := by
  cases hm with
  | length => exact .error _
  | @field read write hread hwrite =>
    cases write with
    | none => exact .error _
    | some f =>
      cases hab with
      | record hr => exact .ok (h.changeRecord hr fun hr => hwrite f rfl h hr hxy)
      | _ => exact .error _

end

/-! ## Rules -/

/-- Rules of one kind with the same members. -/
inductive MemberAccessor.Alike : MemberAccessor → MemberAccessor → Prop
  | none : Alike .none .none
  | object : Alike .object .object
  | map : Alike .map .map
  | reflected {p q : MemberTable} : p.members = q.members →
    (∀ name m, p.members.get? name = some m → m.Uniform) → Alike (.reflected p) (.reflected q)

section

variable {w : Pairing} {s t : Store} (h : s.Alike w t) {p q : MemberAccessor} (hpq : p.Alike q)
  {a b : Value} (hab : a.Alike w b) (name : String)

include h hpq hab

theorem MemberAccessor.Alike.get : (p.get s a name).Alike w (q.get t b name) := by
  cases hpq with
  | none => exact .value .undefined
  | object =>
    cases hab with
    | object hr => exact .value (h.objectGet hr name)
    | _ => exact .value .undefined
  | map =>
    cases hab with
    | map hr => exact .value (Value.alike_getD ((h.entries hr).get? name))
    | _ => exact .value .undefined
  | @reflected p q hmembers huniform =>
    simp only [MemberAccessor.get, ← hmembers]
    cases hm : p.members.get? name with
    | none => exact .value .undefined
    | some m => exact (huniform name m hm).read h hab

theorem MemberAccessor.Alike.set {x y : Value} (hxy : x.Alike w y) :
    ExceptAlike (StoreStep w w s t) (p.set s a name x) (q.set t b name y) := by
  cases hpq with
  | none => exact .error _
  | object =>
    cases hab with
    | object hr => exact h.objectSet hr hxy name
    | _ => exact .error _
  | map =>
    cases hab with
    | map hr => exact .ok (h.setEntry hr hxy name)
    | _ => exact .error _
  | @reflected p q hmembers huniform =>
    simp only [MemberAccessor.set, ← hmembers]
    cases hm : p.members.get? name with
    | none => exact .error _
    | some m => exact (huniform name m hm).write h hab hxy

end

/-! ## Tables -/

/-- The members of a table are members of the shape. -/
theorem MemberTable.mem_of_membersOf {transform : String → String} {shape : Shape} {name : String}
    {m : Member} (h : (membersOf transform shape).get? name = some m) : ∃ p ∈ shape, p.2 = m := by
  refine List.foldlRecOn (motive := fun d : Dictionary Member =>
    d.get? name = some m → ∃ p ∈ shape, p.2 = m) shape _ (by simp) (fun d hd p hp h => ?_) h
  dsimp only at h
  split at h
  · exact hd h
  · rw [Dictionary.get?_insert] at h
    split at h
    · exact ⟨p, hp, Option.some.inj h⟩
    · exact hd h

namespace MemberAccessors

variable {shapes : Shapes} {transform : String → String} {a b : MemberAccessors}

/-- Members are found by these shapes and names, and the tables that were kept are what they would
be if they were made now. -/
structure Sound (shapes : Shapes) (transform : String → String) (a : MemberAccessors) : Prop where
  shapes_eq : a.shapes = shapes
  transform_eq : a.transform = transform
  tables (key : TypeKey) (p : MemberTable) : a.tables.lookup key = some p →
    p.members = MemberTable.membersOf transform (shapes.get key)

theorem sound_new (shapes : Shapes) (transform : String → String) :
    (new shapes transform).Sound shapes transform := ⟨rfl, rfl, fun _ _ h => by cases h⟩

theorem Sound.table (h : a.Sound shapes transform) (key : TypeKey) (type : String) :
    (a.table key type).1.members = MemberTable.membersOf transform (shapes.get key) ∧
      (a.table key type).2.Sound shapes transform := by
  obtain ⟨rfl, rfl, htables⟩ := h
  cases hl : a.tables.lookup key with
  | some p =>
    rw [table_of_lookup hl]
    exact ⟨htables key p hl, rfl, rfl, htables⟩
  | none =>
    rw [table_of_lookup_eq_none hl]
    refine ⟨rfl, rfl, rfl, fun key' p hp => ?_⟩
    simp only [List.lookup_cons] at hp
    split at hp
    · next heq => cases hp; rw [beq_iff_eq.1 heq]; rfl
    · exact htables key' p hp

/-- Finding the rule for a value makes a sound table or none. -/
theorem Sound.resolve_sound (h : a.Sound shapes transform) (σ : Store) (v : Value) :
    (a.resolve σ v).2.Sound shapes transform := by
  unfold MemberAccessors.resolve
  split
  · exact h
  · exact h
  · exact h
  · exact h
  · exact (h.table _ _).2

theorem typeKey_eq {w : Pairing} {s t : Store} (h : s.Alike w t) {x y : Value}
    (hxy : x.Alike w y) : s.typeKey x = t.typeKey y := by
  have htype := h.typeName_eq hxy
  cases hxy with
  | list | array => rfl
  | record hr => simp only [Store.typeKey, (h.record hr).type]
  | undefined | null | bool | int | float | text | map | object | function =>
    simp only [Store.typeKey, htype]

/-- The rules for values that are alike. -/
theorem Sound.resolve (hshapes : shapes.Uniform) (ha : a.Sound shapes transform)
    (hb : b.Sound shapes transform) {w : Pairing} {s t : Store} (h : s.Alike w t) {x y : Value}
    (hxy : x.Alike w y) :
    (a.resolve s x).1.Alike (b.resolve t y).1 ∧ (a.resolve s x).2.Sound shapes transform ∧
      (b.resolve t y).2.Sound shapes transform := by
  have htype := h.typeName_eq hxy
  have hkey := typeKey_eq h hxy
  cases hxy with
  | undefined | null => exact ⟨.none, ha, hb⟩
  | object => exact ⟨.object, ha, hb⟩
  | map => exact ⟨.map, ha, hb⟩
  | bool | int | float | text | list | array | record | function =>
    simp only [MemberAccessors.resolve, ← htype, ← hkey]
    obtain ⟨hp, ha'⟩ := ha.table (s.typeKey _) (s.typeName _)
    obtain ⟨hq, hb'⟩ := hb.table (s.typeKey _) (s.typeName _)
    refine ⟨.reflected (hp.trans hq.symm) fun name m hm => ?_, ha', hb'⟩
    rw [hp] at hm
    obtain ⟨m, hmem, rfl⟩ := MemberTable.mem_of_membersOf hm
    exact hshapes _ m hmem

end MemberAccessors

end TemplateEngine
