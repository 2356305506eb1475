import TemplateEngine.Members.Accessor
import TemplateEngine.Members.Sequence
import TemplateEngine.Semantics.Builtins
import TemplateEngine.Semantics.Loop
import TemplateEngine.Semantics.Operators
import TemplateEngine.State.Context

/-!
# Functions that values carry

A function that a template defines is a value, and so it can be held by frames, by places of the
store and by records. Operators, loops and members define no functions: if every function that they
are given has a property, then every function that they give or leave in the store has it
(`Value.Carries`, `Store.Carries`).
-/

namespace TemplateEngine

/-! ## Dictionaries -/

/-- All values of the dictionary have the property. -/
def Dictionary.All {α : Type} (P : α → Prop) (d : Dictionary α) : Prop := ∀ x ∈ d.entries, P x.2

namespace Dictionary

variable {α : Type} {P : α → Prop} {d e : Dictionary α}

theorem All.empty : (empty : Dictionary α).All P := nofun

theorem mem_of_lookupEntry {key : String} {v : α} {es : List (String × α)}
    (h : lookupEntry key es = some v) : (key, v) ∈ es := by
  induction es with
  | nil => cases h
  | cons x rest ih =>
    obtain ⟨k, u⟩ := x
    simp only [lookupEntry] at h
    split at h
    · next hk =>
      cases h
      simp [hk]
    · exact List.mem_cons_of_mem _ (ih h)

theorem All.get? (h : d.All P) {key : String} : ∀ v ∈ d.get? key, P v :=
  fun _ hv => h _ (mem_of_lookupEntry hv)

theorem mem_insertEntry {key : String} {v : α} {es : List (String × α)} {x : String × α}
    (h : x ∈ insertEntry key v es) : x = (key, v) ∨ x ∈ es := by
  induction es with
  | nil => exact .inl (List.mem_singleton.1 h)
  | cons y rest ih =>
    obtain ⟨k, u⟩ := y
    simp only [insertEntry] at h
    split at h
    · exact List.mem_cons.1 h
    · split at h
      · rcases List.mem_cons.1 h with h | h
        · exact .inl h
        · exact .inr (List.mem_cons_of_mem _ h)
      · rcases List.mem_cons.1 h with h | h
        · exact .inr (List.mem_cons.2 (.inl h))
        · exact (ih h).imp_right (List.mem_cons_of_mem _)

theorem All.insert (h : d.All P) (key : String) {v : α} (hv : P v) : (d.insert key v).All P := by
  intro x hx
  rcases mem_insertEntry hx with rfl | hx
  · exact hv
  · exact h x hx

theorem All.ofList {es : List (String × α)} (h : ∀ x ∈ es, P x.2) : (ofList es).All P := by
  unfold Dictionary.ofList
  exact List.foldlRecOn es _ All.empty fun d hd x hx => hd.insert x.1 (h x hx)

end Dictionary

variable {P : FunctionDef → Prop}

/-! ## Values -/

/-- The function has the property, if a template defines it. -/
def Function.Carries (P : FunctionDef → Prop) : Function → Prop
  | .defined d => P d
  | .builtin _ | .native _ => True

/-- The value is no function, or one that has the property. -/
def Value.Carries (P : FunctionDef → Prop) : Value → Prop
  | .function f => f.Carries P
  | _ => True

namespace Value

theorem carries_ofLiteral (l : Literal) : (ofLiteral l).Carries P := by
  cases l <;> trivial

theorem carries_getD {o : Option Value} (h : ∀ v ∈ o, v.Carries P) :
    (o.getD .undefined).Carries P := by
  cases o with
  | none => trivial
  | some v => exact h v rfl

theorem carries_texts (names : List String) : ∀ v ∈ names.map Value.text, v.Carries P := by
  simp only [List.forall_mem_map]
  exact fun _ _ => trivial

end Value

/-- Every function that the frame binds has the property. -/
def Frame.Carries (P : FunctionDef → Prop) (f : Frame) : Prop :=
  f.slots.All fun s => s.value.Carries P

namespace Frame.Carries

theorem empty : Frame.empty.Carries P := nofun

variable {f g : Frame}

theorem get (h : f.Carries P) (name : String) : (f.get name).Carries P := by
  unfold Frame.get Frame.get?
  cases hs : f.slots.get? name with
  | none => trivial
  | some s => exact Dictionary.All.get? h s hs

theorem define (h : f.Carries P) (name : String) {v : Value} (hv : v.Carries P) (readOnly : Bool) :
    (f.define name v readOnly).Carries P := Dictionary.All.insert h name hv

theorem set (h : f.Carries P) {name : String} {v : Value} (hv : v.Carries P)
    (hg : f.set name v = .ok g) : g.Carries P := by
  obtain ⟨_, rfl⟩ := Frame.set_eq_ok_iff.1 hg
  exact h.define name hv false

theorem update (h : f.Carries P) (hg : g.Carries P) : (f.update g).Carries P := by
  refine List.foldlRecOn (motive := fun d : Dictionary Slot => Frame.Carries P ⟨d⟩)
    g.slots.entries _ h fun d hd x hx => ?_
  exact Dictionary.All.insert hd x.1 (hg x hx)

end Frame.Carries

/-! ## Stores -/

/-- Every function in the record has the property. -/
def Record.Carries (P : FunctionDef → Prop) (x : Record) : Prop := x.fields.All (Value.Carries P)

/-- Every function that the cell holds or answers has the property. -/
def Cell.Carries (P : FunctionDef → Prop) : Cell → Prop
  | .items xs => ∀ v ∈ xs, v.Carries P
  | .entries d => d.All (Value.Carries P)
  | .names f => f.Carries P
  | .capability c => ∀ name, (c.get name).Carries P
  | .record x => x.Carries P

/-- Every function in the store has the property. -/
def Store.Carries (P : FunctionDef → Prop) (s : Store) : Prop := ∀ r, ∀ c ∈ s.cell? r, c.Carries P

namespace Store.Carries

variable {s t : Store} (h : s.Carries P)

include h

/-! ### Reading -/

theorem items (r : Ref) : ∀ v ∈ s.items r, v.Carries P := by
  unfold Store.items
  split
  · next heq => exact h r _ heq
  · nofun

theorem entries (r : Ref) : (s.entries r).All (Value.Carries P) := by
  unfold Store.entries
  split
  · next heq => exact h r _ heq
  · exact .empty

theorem record (r : Ref) : (s.record r).Carries P := by
  unfold Store.record
  split
  · next heq => exact h r _ heq
  · exact Dictionary.All.empty

theorem objectGet (r : Ref) (name : String) : (s.objectGet r name).Carries P := by
  unfold Store.objectGet
  split
  · next heq => exact Frame.Carries.get (h r _ heq) name
  · next heq => exact h r _ heq name
  · trivial

/-! ### Opening and changing -/

theorem alloc {c : Cell} (hc : c.Carries P) : (s.alloc c).2.Carries P := by
  intro r d hd
  rw [Option.mem_def, cell?_alloc] at hd
  split at hd
  · cases hd
    exact hc
  · exact h r d hd

theorem put (r : Ref) {c : Cell} (hc : c.Carries P) : (s.put r c).Carries P := by
  intro q d hd
  by_cases hrq : r = q
  · subst hrq
    simp only [Store.put, cell?, Array.getElem?_setIfInBounds_self, Option.mem_def] at hd
    split at hd
    · cases hd
      exact hc
    · cases hd
  · rw [Option.mem_def, cell?_put_of_ne s c hrq] at hd
    exact h q d hd

theorem setItem (r : Ref) (i : Nat) {v : Value} (hv : v.Carries P) :
    (s.setItem r i v).Carries P := by
  unfold Store.setItem
  split
  · next xs heq =>
    refine h.put r fun u hu => ?_
    rcases List.mem_or_eq_of_mem_set hu with hu | rfl
    · exact h r _ heq u hu
    · exact hv
  · exact h

theorem setEntry (r : Ref) (key : String) {v : Value} (hv : v.Carries P) :
    (s.setEntry r key v).Carries P := by
  unfold Store.setEntry
  split
  · next d heq => exact h.put r (Dictionary.All.insert (h r _ heq) key hv)
  · exact h

theorem changeRecord (r : Ref) {change : Record → Record}
    (hc : ∀ x : Record, x.Carries P → (change x).Carries P) :
    (s.changeRecord r change).Carries P := by
  unfold Store.changeRecord
  split
  · next x heq => exact h.put r (hc x (h r _ heq))
  · exact h

theorem objectSet {r : Ref} {name : String} {v : Value} (hv : v.Carries P)
    (ht : s.objectSet r name v = .ok t) : t.Carries P := by
  unfold Store.objectSet at ht
  split at ht
  · next f heq =>
    cases hset : f.set name v with
    | error e =>
      rw [hset] at ht
      cases ht
    | ok g =>
      rw [hset] at ht
      cases ht
      exact h.put r (Frame.Carries.set (h r _ heq) hv hset)
  · split at ht
    · cases ht
    · cases ht
      exact h
  · cases ht

end Store.Carries

/-! ## Operators -/

theorem carries_exactly {n : Int} {v : Value} (h : exactly n = .ok v) : v.Carries P := by
  unfold exactly at h
  split at h <;> cases h
  trivial

theorem carries_arithmeticIntegers {op : BinaryOp} {a b : Int} {v : Value}
    (h : arithmeticIntegers op a b = .ok v) : v.Carries P := by
  unfold arithmeticIntegers divideIntegers remainderIntegers at h
  split at h
  · exact carries_exactly h
  · exact carries_exactly h
  · exact carries_exactly h
  · split at h
    · cases h
    · split at h <;> cases h <;> trivial
  · split at h
    · cases h
    · split at h <;> cases h
      trivial

theorem carries_arithmeticFloats {op : BinaryOp} {x y : Float} {v : Value}
    (h : arithmeticFloats op x y = .ok v) : v.Carries P := by
  unfold arithmeticFloats at h
  split at h
  · cases h; trivial
  · cases h; trivial
  · cases h; trivial
  · split at h <;> cases h
    trivial
  · split at h <;> cases h
    trivial

namespace Store

variable {s t : Store} {op : BinaryOp} {a b v : Value}

theorem carries_arithmetic (h : s.arithmetic op a b = .ok v) : v.Carries P := by
  unfold arithmetic at h
  split at h
  · exact carries_arithmeticIntegers h
  · split at h
    · exact carries_arithmeticFloats h
    · cases h

theorem carries_concat (h : s.concat a b = .ok v) : v.Carries P := by
  unfold concat at h
  cases ha : s.toText a <;> rw [ha] at h
  · cases h
  · cases hb : s.toText b <;> rw [hb] at h <;> cases h
    trivial

theorem carries_ordered {accept : Ordering → Bool} (h : s.ordered accept a b = .ok v) :
    v.Carries P := by
  unfold ordered at h
  split at h <;> cases h
  trivial

theorem carries_unary {op : UnaryOp} (h : s.unary op a = .ok v) : v.Carries P := by
  unfold unary at h
  split at h
  · cases h; trivial
  · exact carries_exactly h
  · cases h; trivial
  · cases h

/-- An operator that works on the store leaves it alone. -/
theorem Carries.unchanged (h : s.Carries P) {r : Except ScriptFault Value}
    (hr : ∀ {v}, r = .ok v → v.Carries P) (ht : (r.map fun v => (v, s)) = .ok (v, t)) :
    v.Carries P ∧ t.Carries P := by
  cases r with
  | error fault => cases ht
  | ok v =>
    cases ht
    exact ⟨hr rfl, h⟩

theorem Carries.add (h : s.Carries P) (ht : s.add a b = .ok (v, t)) :
    v.Carries P ∧ t.Carries P := by
  unfold Store.add at ht
  split at ht
  · exact h.unchanged carries_concat ht
  · exact h.unchanged carries_concat ht
  · next p q =>
    cases ht
    exact ⟨trivial, h.alloc (c := .items _) (List.forall_mem_append.2 ⟨h.items p, h.items q⟩)⟩
  · exact h.unchanged carries_arithmetic ht

theorem Carries.binary (h : s.Carries P) (ha : a.Carries P) (hb : b.Carries P)
    (ht : s.binary op a b = .ok (v, t)) : v.Carries P ∧ t.Carries P := by
  have hequal (f : Bool → Bool) {w : Value}
      (hw : ((s.equals a b).map fun same => Value.bool (f same)) = .ok w) : w.Carries P := by
    cases hr : s.equals a b <;> rw [hr] at hw <;> cases hw
    trivial
  cases op with
  | eq => exact h.unchanged (hequal id) ht
  | ne => exact h.unchanged (hequal not) ht
  | lt | gt | le | ge => exact h.unchanged carries_ordered ht
  | concat => exact h.unchanged carries_concat ht
  | add => exact h.add ht
  | sub | mul | div | rem => exact h.unchanged carries_arithmetic ht
  | and =>
    cases ht
    refine ⟨?_, h⟩
    split <;> assumption
  | or =>
    cases ht
    refine ⟨?_, h⟩
    split <;> assumption

/-! ## Loops and built-in functions -/

theorem Carries.iterationItems (h : s.Carries P) {xs : List Value}
    (hxs : s.iterationItems a = .ok xs) : ∀ x ∈ xs, x.Carries P := by
  unfold Store.iterationItems at hxs
  split at hxs <;> cases hxs
  · nofun
  · nofun
  · exact h.items _
  · exact h.items _
  · exact Value.carries_texts _
  · exact Value.carries_texts _

end Store

theorem Builtin.carries_argument {args : List Value} (h : ∀ v ∈ args, v.Carries P) (i : Nat) :
    (argument args i).Carries P :=
  Value.carries_getD fun _ hv => h _ (List.mem_of_getElem? hv)

/-! ## Members -/

/-- What reading the member gives is no function, or one that has the property. -/
def Answer.Carries (P : FunctionDef → Prop) : Answer → Prop
  | .value v => v.Carries P
  | .newFunction _ _ => True

/-- The member gives and leaves functions with the property only, if it is given such ones. -/
def Member.Keeps (P : FunctionDef → Prop) : Member → Prop
  | .length => True
  | .field read write => (∀ x : Record, x.Carries P → (read x).Carries P) ∧
    ∀ f ∈ write, ∀ (s : Store) (x : Record) (v : Value),
      s.Carries P → x.Carries P → v.Carries P → (f s x v).Carries P

/-- All members that the host declares keep the property. -/
def Shapes.Keep (P : FunctionDef → Prop) (s : Shapes) : Prop := ∀ key, ∀ x ∈ s.get key, x.2.Keeps P

theorem Shapes.keep_empty : Shapes.empty.Keep P := by
  intro key x hx
  cases key with
  | list | array =>
    obtain rfl := List.mem_singleton.1 hx
    trivial
  | record type => cases hx
  | builtin kind => cases hx

/-- All members of the table keep the property. -/
def MemberTable.Keeps (P : FunctionDef → Prop) (t : MemberTable) : Prop :=
  t.members.All (Member.Keeps P)

theorem MemberTable.keeps_build (serial : Nat) (type : String) (transform : String → String)
    {shape : Shape} (h : ∀ x ∈ shape, x.2.Keeps P) :
    (build serial type transform shape).Keeps P := by
  refine List.foldlRecOn (motive := fun d : Dictionary Member => d.All (Member.Keeps P)) shape _
    Dictionary.All.empty fun d hd x hx => ?_
  dsimp only
  split
  · exact hd
  · exact hd.insert _ (h x hx)

/-- The rule keeps the property. -/
def MemberAccessor.Keeps (P : FunctionDef → Prop) : MemberAccessor → Prop
  | .reflected t => t.Keeps P
  | .none | .object | .map => True

section

variable {s t : Store} (h : s.Carries P) {target v : Value}

include h

theorem Member.Keeps.read {m : Member} (hm : m.Keeps P) (target : Value) :
    (m.read s target).Carries P := by
  unfold Member.read
  split
  · trivial
  · trivial
  · exact hm.1 _ (h.record _)
  · trivial

theorem Member.Keeps.write {m : Member} (hm : m.Keeps P) (hv : v.Carries P)
    (ht : m.write s target v = .ok t) : t.Carries P := by
  unfold Member.write at ht
  split at ht
  · cases ht
    exact h.changeRecord _ fun x hx => hm.2 _ rfl s x v h hx hv
  · cases ht
  · cases ht

theorem MemberAccessor.Keeps.get {a : MemberAccessor} (ha : a.Keeps P) (target : Value)
    (name : String) : (a.get s target name).Carries P := by
  unfold MemberAccessor.get
  split
  · exact h.objectGet _ name
  · exact Value.carries_getD (h.entries _).get?
  · split
    · next m hm => exact (ha.get? m hm).read h _
    · trivial
  · trivial

theorem MemberAccessor.Keeps.set {a : MemberAccessor} (ha : a.Keeps P) {name : String}
    (hv : v.Carries P) (ht : a.set s target name v = .ok t) : t.Carries P := by
  unfold MemberAccessor.set at ht
  split at ht
  · exact h.objectSet hv ht
  · cases ht
    exact h.setEntry _ name hv
  · split at ht
    · next m hm => exact (ha.get? m hm).write h hv ht
    · cases ht
  · cases ht

end

/-- The rules that were found and those that can be found keep the property. -/
structure MemberAccessors.Keep (P : FunctionDef → Prop) (a : MemberAccessors) : Prop where
  shapes : a.shapes.Keep P
  tables : ∀ x ∈ a.tables, x.2.Keeps P

namespace MemberAccessors.Keep

variable {a : MemberAccessors}

theorem new {shapes : Shapes} (h : shapes.Keep P) (transform : String → String) :
    (MemberAccessors.new shapes transform).Keep P := ⟨h, nofun⟩

theorem table (h : a.Keep P) (key : TypeKey) (type : String) :
    (a.table key type).1.Keeps P ∧ (a.table key type).2.Keep P := by
  cases hl : a.tables.lookup key with
  | some t =>
    obtain ⟨before, after, heq, -⟩ := List.lookup_eq_some_iff.1 hl
    rw [table_of_lookup hl]
    exact ⟨h.tables (key, t) (by simp [heq]), h⟩
  | none =>
    rw [table_of_lookup_eq_none hl]
    have ht := MemberTable.keeps_build a.built type a.transform (h.shapes key)
    exact ⟨ht, h.shapes, List.forall_mem_cons.2 ⟨ht, h.tables⟩⟩

theorem resolve (h : a.Keep P) (s : Store) (v : Value) :
    (a.resolve s v).1.Keeps P ∧ (a.resolve s v).2.Keep P := by
  cases v with
  | undefined | null | object | map => exact ⟨trivial, h⟩
  | _ => exact h.table _ _

end MemberAccessors.Keep

/-! ## Items -/

namespace SequenceAccessor

variable {s t : Store} {a : SequenceAccessor} {target v : Value} {index : Int}

theorem carries_get (h : s.Carries P) (hv : a.get s target index = .ok v) : v.Carries P := by
  unfold SequenceAccessor.get at hv
  split at hv
  · next r _ =>
    cases hi : inBounds index (s.items r).length <;> rw [hi] at hv <;> cases hv
    exact Value.carries_getD fun _ hv => h.items r _ (List.mem_of_getElem? hv)
  · cases hv

theorem carries_set (h : s.Carries P) (hv : v.Carries P) (ht : a.set s target index v = .ok t) :
    t.Carries P := by
  unfold SequenceAccessor.set at ht
  split at ht
  · next r _ =>
    cases hi : inBounds index (s.items r).length <;> rw [hi] at ht <;> cases ht
    exact h.setItem r _ hv
  · cases ht

end SequenceAccessor

/-! ## Settings -/

/-- The root namespace binds functions that no template defines. -/
theorem Settings.carries_root (s : Settings) : s.root.1.Carries P ∧ s.root.2.Carries P := by
  unfold root
  have hown : (Builtin.all.foldl
      (fun f b => f.define b.name (.function (.builtin b)) true) Frame.empty).Carries P :=
    List.foldlRecOn (motive := Frame.Carries P) Builtin.all _ .empty
      fun f hf b _ => hf.define b.name (v := .function (.builtin b)) trivial true
  refine List.foldlRecOn (motive := fun x : Frame × Store => x.1.Carries P ∧ x.2.Carries P)
    s.functions _ ⟨hown, ?_⟩ ?_
  · intro r c hc
    simp [Store.cell?, Store.empty] at hc
  · rintro ⟨f, store⟩ ⟨hf, hs⟩ ⟨name, operation⟩ _
    exact ⟨hf.define name (v := (store.newNative name operation).1) trivial true, hs⟩

end TemplateEngine
