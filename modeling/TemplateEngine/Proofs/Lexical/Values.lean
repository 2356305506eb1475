import TemplateEngine.Proofs.Evaluation.Carried
import TemplateEngine.Proofs.Lexical.Names

/-!
# Lexical values

A value is lexical if it is no function of a template, or one whose body is lexical. A store is
lexical if all values in it are, and so are the members that the host declares if they make lexical
values of lexical ones. Whatever operators, functions and members give of lexical values is lexical
again, and none of them fails because of a loop name (`Regular`).
-/

namespace TemplateEngine

/-! ## Values -/

/-- The body of the function, if a template defines it, looks up no name of a loop around it. -/
def Function.Lexical : Function → Prop
  | .defined d => d.Lexical
  | .builtin _ | .native _ => True

/-- The value is no function, or a lexical one. -/
def Value.Lexical : Value → Prop
  | .function f => f.Lexical
  | _ => True

theorem Value.lexical_ofLiteral (l : Literal) : (Value.ofLiteral l).Lexical :=
  Value.carries_ofLiteral (P := FunctionDef.Lexical) l

theorem Value.lexical_getD {o : Option Value} (h : ∀ v ∈ o, v.Lexical) :
    (o.getD .undefined).Lexical := Value.carries_getD (P := FunctionDef.Lexical) h

/-! ## Frames -/

/-- All values that the frame binds are lexical. -/
def Frame.Lexical (f : Frame) : Prop := f.slots.All fun s => s.value.Lexical

namespace Frame.Lexical

variable {f : Frame} (h : f.Lexical)

theorem empty : Frame.empty.Lexical := nofun

include h

theorem define (name : String) {v : Value} (hv : v.Lexical) (readOnly : Bool) :
    (f.define name v readOnly).Lexical := Dictionary.All.insert h name hv

theorem get (name : String) : (f.get name).Lexical :=
  Frame.Carries.get (P := FunctionDef.Lexical) h name

theorem set {name : String} {v : Value} (hv : v.Lexical) {g : Frame}
    (hg : f.set name v = .ok g) : g.Lexical :=
  Frame.Carries.set (P := FunctionDef.Lexical) h hv hg

end Frame.Lexical

/-! ## Stores -/

/-- All values in the record are lexical. -/
def Record.Lexical (x : Record) : Prop := x.fields.All Value.Lexical

/-- All values that the cell holds or answers are lexical. -/
def Cell.Lexical : Cell → Prop
  | .items xs => ∀ v ∈ xs, v.Lexical
  | .entries d => d.All Value.Lexical
  | .names f => f.Lexical
  | .capability c => ∀ name, (c.get name).Lexical
  | .record x => x.Lexical

/-- All values in the store are lexical. -/
def Store.Lexical (s : Store) : Prop := ∀ r, ∀ c ∈ s.cell? r, c.Lexical

namespace Store.Lexical

variable {s : Store} (h : s.Lexical)

include h

/-! ### Reading -/

theorem items (r : Ref) : ∀ v ∈ s.items r, v.Lexical :=
  Store.Carries.items (P := FunctionDef.Lexical) h r

/-! ### Opening and changing -/

theorem alloc {c : Cell} (hc : c.Lexical) : (s.alloc c).2.Lexical :=
  Store.Carries.alloc (P := FunctionDef.Lexical) h hc

theorem newNative (name operation : String) : (s.newNative name operation).2.Lexical := h

end Store.Lexical

/-! ## Faults -/

/-- The fault is that a loop name is used outside of loops. -/
def ScriptFault.Stray : ScriptFault → Prop
  | .loopVariableOutsideLoop _ => True
  | _ => False

/-- The error is that a loop name is used outside of loops. -/
def EvalError.Stray : EvalError → Prop
  | .script _ fault => fault.Stray
  | .usage _ | .noLoopFrame => False

/-- There is a result with the property, or a fault that is not about a loop name. -/
inductive Regular {α : Type} (A : α → Prop) : Except ScriptFault α → Prop
  | ok {a : α} : A a → Regular A (.ok a)
  | error {fault : ScriptFault} : ¬ fault.Stray → Regular A (.error fault)

namespace Regular

variable {α β : Type} {A : α → Prop} {B : β → Prop} {r : Except ScriptFault α}

theorem map (h : Regular A r) {f : α → β} (hf : ∀ a, A a → B (f a)) : Regular B (r.map f) := by
  cases h with
  | ok ha => exact .ok (hf _ ha)
  | error hs => exact .error hs

theorem bind (h : Regular A r) {f : α → Except ScriptFault β} (hf : ∀ a, A a → Regular B (f a)) :
    Regular B (r >>= f) := by
  cases h with
  | ok ha => exact hf _ ha
  | error hs => exact .error hs

theorem conversion (r : Except ConversionFault α) :
    Regular (fun _ => True) (r.mapError .conversion) := by
  cases r with
  | ok a => exact .ok trivial
  | error e => exact .error id

end Regular

/-! ## Operators -/

theorem regular_exactly (n : Int) : Regular Value.Lexical (exactly n) := by
  unfold exactly
  split
  · exact .ok trivial
  · exact .error id

theorem regular_arithmeticIntegers (op : BinaryOp) (a b : Int) :
    Regular Value.Lexical (arithmeticIntegers op a b) := by
  unfold arithmeticIntegers divideIntegers remainderIntegers
  split
  · exact regular_exactly _
  · exact regular_exactly _
  · exact regular_exactly _
  · split
    · exact .error id
    · split <;> exact .ok trivial
  · split
    · exact .error id
    · split
      · exact .ok trivial
      · exact .error id

theorem regular_arithmeticFloats (op : BinaryOp) (x y : Float) :
    Regular Value.Lexical (arithmeticFloats op x y) := by
  unfold arithmeticFloats
  split
  · exact .ok trivial
  · exact .ok trivial
  · exact .ok trivial
  · split
    · exact .error id
    · exact .ok trivial
  · split
    · exact .error id
    · exact .ok trivial

namespace Store

variable (s : Store)

theorem regular_arithmetic (op : BinaryOp) (a b : Value) :
    Regular Value.Lexical (s.arithmetic op a b) := by
  unfold arithmetic
  split
  · exact regular_arithmeticIntegers op _ _
  · split
    · exact regular_arithmeticFloats op _ _
    · exact .error id

theorem regular_concat (a b : Value) : Regular Value.Lexical (s.concat a b) :=
  .bind (.conversion _) fun _ _ => .bind (.conversion _) fun _ _ => .ok trivial

theorem regular_equals (a b : Value) : Regular (fun _ => True) (s.equals a b) := by
  have hc (v : Value) : Regular (fun _ => True) (s.comparable v) := by
    unfold comparable
    split
    · exact .error id
    · exact .ok trivial
  exact .bind (hc a) fun _ _ => .bind (hc b) fun _ _ => .ok trivial

theorem regular_ordered (accept : Ordering → Bool) (a b : Value) :
    Regular Value.Lexical (s.ordered accept a b) := by
  unfold ordered
  split
  · exact .ok trivial
  · exact .error id

theorem regular_unary (op : UnaryOp) (v : Value) : Regular Value.Lexical (s.unary op v) := by
  unfold unary
  split
  · exact .ok trivial
  · exact regular_exactly _
  · exact .ok trivial
  · exact .error id

variable {s}

/-- A lexical value, and with it a lexical store. -/
def LexicalResult (x : Value × Store) : Prop := x.1.Lexical ∧ x.2.Lexical

theorem Lexical.unchanged (h : s.Lexical) {r : Except ScriptFault Value}
    (hr : Regular Value.Lexical r) : Regular LexicalResult (r.map fun v => (v, s)) :=
  hr.map fun _ hv => ⟨hv, h⟩

theorem Lexical.add (h : s.Lexical) (a b : Value) : Regular LexicalResult (s.add a b) := by
  unfold Store.add
  split
  · exact h.unchanged (s.regular_concat _ _)
  · exact h.unchanged (s.regular_concat _ _)
  · next p q =>
    exact .ok ⟨trivial, h.alloc (c := .items _) (List.forall_mem_append.2 ⟨h.items p, h.items q⟩)⟩
  · exact h.unchanged (s.regular_arithmetic _ _ _)

theorem Lexical.binary (h : s.Lexical) (op : BinaryOp) {a b : Value} (ha : a.Lexical)
    (hb : b.Lexical) : Regular LexicalResult (s.binary op a b) := by
  cases op with
  | eq => exact h.unchanged ((s.regular_equals a b).map fun _ _ => trivial)
  | ne => exact h.unchanged ((s.regular_equals a b).map fun _ _ => trivial)
  | lt | gt | le | ge => exact h.unchanged (s.regular_ordered _ a b)
  | concat => exact h.unchanged (s.regular_concat a b)
  | add => exact h.add a b
  | sub | mul | div | rem => exact h.unchanged (s.regular_arithmetic _ a b)
  | and =>
    refine .ok ⟨?_, h⟩
    split <;> assumption
  | or =>
    refine .ok ⟨?_, h⟩
    split <;> assumption

/-! ## Loops and built-in functions -/

theorem Lexical.iterationItems (h : s.Lexical) (v : Value) :
    Regular (fun xs => ∀ x ∈ xs, x.Lexical) (s.iterationItems v) := by
  have htexts (names : List String) : ∀ x ∈ names.map Value.text, x.Lexical := by
    simp only [List.forall_mem_map]
    exact fun _ _ => trivial
  unfold Store.iterationItems
  split
  · exact .ok nofun
  · exact .ok nofun
  · exact .ok (h.items _)
  · exact .ok (h.items _)
  · exact .ok (htexts _)
  · exact .ok (htexts _)
  · exact .error id

end Store

namespace Builtin

theorem lexical_argument {args : List Value} (h : ∀ v ∈ args, v.Lexical) (i : Nat) :
    (argument args i).Lexical :=
  Value.lexical_getD fun _ hv => h _ (List.mem_of_getElem? hv)

theorem regular_countOf (s : Store) (v : Value) : Regular (fun _ => True) (countOf s v) := by
  cases v with
  | bool | int | float | record | function => exact .error id
  | _ => exact .ok trivial

theorem regular_joinItems (s : Store) (v : Value) : Regular (fun _ => True) (joinItems s v) := by
  cases v with
  | undefined | null | list | array => exact .ok trivial
  | _ => exact .error id

theorem regular_keysOf (s : Store) (v : Value) : Regular (fun _ => True) (keysOf s v) := by
  cases v with
  | undefined | null | map | object => exact .ok trivial
  | _ => exact .error id

end Builtin

/-! ## Members -/

/-- Reading the member gives a lexical value. -/
def Answer.Lexical : Answer → Prop
  | .value v => v.Lexical
  | .newFunction _ _ => True

/-- The member makes lexical values and records of lexical ones. -/
def Member.Lexical : Member → Prop
  | .length => True
  | .field read write => (∀ x : Record, x.Lexical → (read x).Lexical) ∧
    ∀ f ∈ write, ∀ (s : Store) (x : Record) (v : Value),
      s.Lexical → x.Lexical → v.Lexical → (f s x v).Lexical

/-- All members that the host declares make lexical values of lexical ones. -/
def Shapes.Lexical (s : Shapes) : Prop := ∀ key, ∀ x ∈ s.get key, x.2.Lexical

theorem Shapes.lexical_empty : Shapes.empty.Lexical :=
  Shapes.keep_empty (P := FunctionDef.Lexical)

section

variable {s : Store} (h : s.Lexical)

include h

end

/-- All members of the table make lexical values of lexical ones. -/
def MemberTable.Lexical (t : MemberTable) : Prop := t.members.All Member.Lexical

theorem MemberTable.lexical_build (serial : Nat) (type : String) (transform : String → String)
    {shape : Shape} (h : ∀ x ∈ shape, x.2.Lexical) :
    (build serial type transform shape).Lexical :=
  MemberTable.keeps_build (P := FunctionDef.Lexical) serial type transform h

/-- The rule gives and takes lexical values. -/
def MemberAccessor.Lexical : MemberAccessor → Prop
  | .reflected t => t.Lexical
  | .none | .object | .map => True

section

variable {s : Store} (h : s.Lexical)

include h

theorem MemberAccessor.Lexical.get {a : MemberAccessor} (ha : a.Lexical) (target : Value)
    (name : String) : (a.get s target name).Lexical :=
  MemberAccessor.Keeps.get (P := FunctionDef.Lexical) h ha target name

theorem MemberAccessor.Lexical.set {a : MemberAccessor} (ha : a.Lexical) {target : Value}
    {name : String} {v : Value} (hv : v.Lexical) {t : Store}
    (ht : a.set s target name v = .ok t) : t.Lexical :=
  MemberAccessor.Keeps.set (P := FunctionDef.Lexical) h ha hv ht

end

/-- The rules that were found and those that can be found give and take lexical values. -/
structure MemberAccessors.Lexical (a : MemberAccessors) : Prop where
  shapes : a.shapes.Lexical
  tables : ∀ x ∈ a.tables, x.2.Lexical

namespace MemberAccessors.Lexical

variable {a : MemberAccessors}

theorem new {shapes : Shapes} (h : shapes.Lexical) (transform : String → String) :
    (MemberAccessors.new shapes transform).Lexical := ⟨h, nofun⟩

theorem table (h : a.Lexical) (key : TypeKey) (type : String) :
    (a.table key type).1.Lexical ∧ (a.table key type).2.Lexical := by
  cases hl : a.tables.lookup key with
  | some t =>
    obtain ⟨before, after, heq, -⟩ := List.lookup_eq_some_iff.1 hl
    rw [table_of_lookup hl]
    exact ⟨h.tables (key, t) (by simp [heq]), h⟩
  | none =>
    rw [table_of_lookup_eq_none hl]
    have ht := MemberTable.lexical_build a.built type a.transform (h.shapes key)
    exact ⟨ht, h.shapes, List.forall_mem_cons.2 ⟨ht, h.tables⟩⟩

theorem resolve (h : a.Lexical) (s : Store) (v : Value) :
    (a.resolve s v).1.Lexical ∧ (a.resolve s v).2.Lexical := by
  cases v with
  | undefined | null | object | map => exact ⟨trivial, h⟩
  | _ => exact h.table _ _

end MemberAccessors.Lexical

/-! ## Items -/

theorem SequenceAccessor.regular_get {s : Store} (h : s.Lexical) (a : SequenceAccessor)
    (target : Value) (index : Int) (shown : String) :
    Regular Value.Lexical ((a.get s target index).mapError fun e =>
      .indexOutOfBounds shown e.index e.length) := by
  unfold SequenceAccessor.get
  split
  · next r _ =>
    cases inBounds index (s.items r).length with
    | ok i => exact .ok (Value.lexical_getD fun _ hv => h.items r _ (List.mem_of_getElem? hv))
    | error e => exact .error id
  · exact .error id

theorem SequenceAccessor.lexical_set {s : Store} (h : s.Lexical) {a : SequenceAccessor}
    {target : Value} {index : Int} {v : Value} (hv : v.Lexical) {t : Store}
    (ht : a.set s target index v = .ok t) : t.Lexical :=
  SequenceAccessor.carries_set (P := FunctionDef.Lexical) h hv ht

end TemplateEngine
