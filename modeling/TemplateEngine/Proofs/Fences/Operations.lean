import TemplateEngine.Proofs.Fences.Stores

/-!
# Operations inside of fences

Operators and built-in functions give no places but those that they are given and those that they
open. Members do so if the host declares them so (`Shapes.Confined`); writing one changes only the
place that the value refers to, and so does writing an item.
-/

namespace TemplateEngine

variable {F : Fence}

/-! ## Operators -/

theorem ref?_exactly {n : Int} {v : Value} (h : exactly n = .ok v) : v.ref? = none := by
  unfold exactly at h
  split at h <;> cases h
  rfl

theorem ref?_arithmeticIntegers {op : BinaryOp} {a b : Int} {v : Value}
    (h : arithmeticIntegers op a b = .ok v) : v.ref? = none := by
  unfold arithmeticIntegers divideIntegers remainderIntegers at h
  split at h
  · exact ref?_exactly h
  · exact ref?_exactly h
  · exact ref?_exactly h
  · split at h
    · cases h
    · split at h <;> cases h <;> rfl
  · split at h
    · cases h
    · split at h <;> cases h
      rfl

theorem ref?_arithmeticFloats {op : BinaryOp} {x y : Float} {v : Value}
    (h : arithmeticFloats op x y = .ok v) : v.ref? = none := by
  unfold arithmeticFloats at h
  split at h
  · cases h; rfl
  · cases h; rfl
  · cases h; rfl
  · split at h <;> cases h
    rfl
  · split at h <;> cases h
    rfl

namespace Store

variable {s t : Store} {op : BinaryOp} {a b v : Value}

theorem ref?_arithmetic (h : s.arithmetic op a b = .ok v) : v.ref? = none := by
  unfold arithmetic at h
  split at h
  · exact ref?_arithmeticIntegers h
  · split at h
    · exact ref?_arithmeticFloats h
    · cases h

theorem ref?_concat (h : s.concat a b = .ok v) : v.ref? = none := by
  unfold concat at h
  cases ha : s.toText a <;> rw [ha] at h
  · cases h
  · cases hb : s.toText b <;> rw [hb] at h <;> cases h
    rfl

theorem ref?_ordered {accept : Ordering → Bool} (h : s.ordered accept a b = .ok v) :
    v.ref? = none := by
  unfold ordered at h
  split at h <;> cases h
  rfl

theorem ref?_unary {op : UnaryOp} (h : s.unary op a = .ok v) : v.ref? = none := by
  unfold unary at h
  split at h
  · cases h; rfl
  · exact ref?_exactly h
  · cases h; rfl
  · cases h

/-- An operator that works on the store leaves it alone, and gives no place. -/
theorem Known.unchanged (h : s.Known F) {r : Except ScriptFault Value}
    (hplain : ∀ {v}, r = .ok v → v.ref? = none)
    (ht : (r.map fun v => (v, s)) = .ok (v, t)) : v.Known F ∧ s.Spared F t := by
  cases r with
  | error fault => cases ht
  | ok v =>
    cases ht
    exact ⟨Value.known_of_plain (hplain rfl), h.spared⟩

/-- The one operator that opens a place is the addition of lists. -/
theorem Known.add (h : s.Known F) (ht : s.add a b = .ok (v, t)) : v.Known F ∧ s.Spared F t := by
  unfold Store.add at ht
  split at ht
  · exact h.unchanged ref?_concat ht
  · exact h.unchanged ref?_concat ht
  · next p q =>
    cases ht
    have hitems := h.opened (c := .items _) (List.forall_mem_append.2 ⟨h.items p, h.items q⟩)
      (v := .list s.cells.size) rfl
    exact ⟨hitems.1.1, hitems.2⟩
  · exact h.unchanged ref?_arithmetic ht

theorem Known.binary (h : s.Known F) (ha : a.Known F) (hb : b.Known F)
    (ht : s.binary op a b = .ok (v, t)) : v.Known F ∧ s.Spared F t := by
  have hequal (f : Bool → Bool) {w : Value}
      (hw : ((s.equals a b).map fun same => Value.bool (f same)) = .ok w) : w.ref? = none := by
    cases hr : s.equals a b <;> rw [hr] at hw <;> cases hw
    rfl
  cases op with
  | eq => exact h.unchanged (hequal id) ht
  | ne => exact h.unchanged (hequal not) ht
  | lt | gt | le | ge => exact h.unchanged ref?_ordered ht
  | concat => exact h.unchanged ref?_concat ht
  | add => exact h.add ht
  | sub | mul | div | rem => exact h.unchanged ref?_arithmetic ht
  | and =>
    cases ht
    refine ⟨?_, h.spared⟩
    split <;> assumption
  | or =>
    cases ht
    refine ⟨?_, h.spared⟩
    split <;> assumption

/-! ## Loops and built-in functions -/

theorem Known.iterationItems (h : s.Known F) {xs : List Value}
    (hxs : s.iterationItems a = .ok xs) : ∀ x ∈ xs, x.Known F := by
  unfold Store.iterationItems at hxs
  split at hxs <;> cases hxs
  · nofun
  · nofun
  · exact h.items _
  · exact h.items _
  · exact Value.known_texts _
  · exact Value.known_texts _

end Store

theorem Builtin.known_argument {args : List Value} (h : ∀ v ∈ args, v.Known F) (i : Nat) :
    (argument args i).Known F :=
  Value.known_getD fun _ hv => h _ (List.mem_of_getElem? hv)

/-! ## Members -/

/-- Reading the member gives a known value. -/
def Answer.Known (F : Fence) : Answer → Prop
  | .value v => v.Known F
  | .newFunction _ _ => True

/-- The member makes known values and records of known ones. -/
def Member.Confined (F : Fence) : Member → Prop
  | .length => True
  | .field read write => (∀ x : Record, x.Known F → (read x).Known F) ∧
    ∀ f ∈ write, ∀ (s : Store) (x : Record) (v : Value),
      s.Known F → x.Known F → v.Known F → (f s x v).Known F

/-- All members that the host declares make known values of known ones. -/
def Shapes.Confined (F : Fence) (s : Shapes) : Prop := ∀ key, ∀ x ∈ s.get key, x.2.Confined F

theorem Shapes.confined_empty : Shapes.empty.Confined F := by
  intro key x hx
  cases key with
  | list | array =>
    obtain rfl := List.mem_singleton.1 hx
    trivial
  | record type => cases hx
  | builtin kind => cases hx

/-- All members of the table make known values of known ones. -/
def MemberTable.Confined (F : Fence) (t : MemberTable) : Prop := t.members.All (Member.Confined F)

theorem MemberTable.confined_build (serial : Nat) (type : String) (transform : String → String)
    {shape : Shape} (h : ∀ x ∈ shape, x.2.Confined F) :
    (build serial type transform shape).Confined F := by
  refine List.foldlRecOn (motive := fun d : Dictionary Member => d.All (Member.Confined F)) shape _
    Dictionary.All.empty fun d hd x hx => ?_
  dsimp only
  split
  · exact hd
  · exact hd.insert _ (h x hx)

/-- The rule gives and takes known values. -/
def MemberAccessor.Confined (F : Fence) : MemberAccessor → Prop
  | .reflected t => t.Confined F
  | .none | .object | .map => True

section

variable {s t : Store} (h : s.Known F) {target v : Value}

include h

theorem Member.Confined.read {m : Member} (hm : m.Confined F) (target : Value) :
    (m.read s target).Known F := by
  unfold Member.read
  split
  · exact Value.known_of_plain rfl
  · exact Value.known_of_plain rfl
  · exact hm.1 _ (h.record _)
  · exact Value.known_of_plain rfl

theorem Member.Confined.write {m : Member} (hm : m.Confined F) (htarget : target.Outside F)
    (hv : v.Known F) (ht : m.write s target v = .ok t) : s.Spared F t := by
  unfold Member.write at ht
  split at ht
  · cases ht
    exact h.changeRecord (htarget _ rfl) fun x hx => hm.2 _ rfl s x v h hx hv
  · cases ht
  · cases ht

theorem MemberAccessor.Confined.get {a : MemberAccessor} (ha : a.Confined F) (target : Value)
    (name : String) : (a.get s target name).Known F := by
  unfold MemberAccessor.get
  split
  · exact h.objectGet _ name
  · exact Value.known_getD (h.entries _).get?
  · split
    · next m hm => exact (ha.get? m hm).read h _
    · exact Value.known_of_plain rfl
  · exact Value.known_of_plain rfl

theorem MemberAccessor.Confined.set {a : MemberAccessor} (ha : a.Confined F)
    (htarget : target.Outside F) {name : String} (hv : v.Known F)
    (ht : a.set s target name v = .ok t) : s.Spared F t := by
  unfold MemberAccessor.set at ht
  split at ht
  · exact h.objectSet (htarget _ rfl) hv ht
  · cases ht
    exact h.setEntry (htarget _ rfl) name hv
  · split at ht
    · next m hm => exact (ha.get? m hm).write h htarget hv ht
    · cases ht
  · cases ht

end

/-- The rules that were found and those that can be found give and take known values. -/
structure MemberAccessors.Confined (F : Fence) (a : MemberAccessors) : Prop where
  shapes : a.shapes.Confined F
  tables : ∀ x ∈ a.tables, x.2.Confined F

namespace MemberAccessors.Confined

variable {a : MemberAccessors}

theorem new {shapes : Shapes} (h : shapes.Confined F) (transform : String → String) :
    (MemberAccessors.new shapes transform).Confined F := ⟨h, nofun⟩

theorem table (h : a.Confined F) (key : TypeKey) (type : String) :
    (a.table key type).1.Confined F ∧ (a.table key type).2.Confined F := by
  cases hl : a.tables.lookup key with
  | some t =>
    obtain ⟨before, after, heq, -⟩ := List.lookup_eq_some_iff.1 hl
    rw [table_of_lookup hl]
    exact ⟨h.tables (key, t) (by simp [heq]), h⟩
  | none =>
    rw [table_of_lookup_eq_none hl]
    have ht := MemberTable.confined_build a.built type a.transform (h.shapes key)
    exact ⟨ht, h.shapes, List.forall_mem_cons.2 ⟨ht, h.tables⟩⟩

theorem resolve (h : a.Confined F) (s : Store) (v : Value) :
    (a.resolve s v).1.Confined F ∧ (a.resolve s v).2.Confined F := by
  cases v with
  | undefined | null | object | map => exact ⟨trivial, h⟩
  | _ => exact h.table _ _

end MemberAccessors.Confined

/-! ## Items -/

namespace SequenceAccessor

variable {s t : Store} {a : SequenceAccessor} {target v : Value} {index : Int}

theorem known_get (h : s.Known F) (hv : a.get s target index = .ok v) : v.Known F := by
  unfold SequenceAccessor.get at hv
  split at hv
  · next r _ =>
    cases hi : inBounds index (s.items r).length <;> rw [hi] at hv <;> cases hv
    exact Value.known_getD fun _ hv => h.items r _ (List.mem_of_getElem? hv)
  · cases hv

theorem spared_set (h : s.Known F) (htarget : target.Outside F) (hv : v.Known F)
    (ht : a.set s target index v = .ok t) : s.Spared F t := by
  unfold SequenceAccessor.set at ht
  split at ht
  · next r hplace =>
    have href : target.ref? = some r := by
      cases a <;> cases target <;> cases hplace <;> rfl
    cases hi : inBounds index (s.items r).length <;> rw [hi] at ht <;> cases ht
    exact h.setItem (htarget r href) _ hv
  · cases ht

end SequenceAccessor

end TemplateEngine
