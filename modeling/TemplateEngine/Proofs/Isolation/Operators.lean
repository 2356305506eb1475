import TemplateEngine.Proofs.Isolation.Growth
import TemplateEngine.Semantics.Builtins
import TemplateEngine.Semantics.Loop
import TemplateEngine.Semantics.Operators

/-!
# Operators on values alike

Comparing, computing, counting and listing come out the same on stores that are alike. Places and
functions are compared by their numbers, and here it matters that pairs go one to one.
-/

namespace TemplateEngine

section

variable {α β : Type} {R : α → β → Prop} {xs ys : List α} {xs' ys' : List β}
  {eq : α → α → Bool} {eq' : β → β → Bool}

theorem pairwiseEqual_eq_of_forall₂ (hx : List.Forall₂ R xs xs') (hy : List.Forall₂ R ys ys')
    (h : ∀ {a a' b b'}, R a a' → R b b' → eq a b = eq' a' b') :
    pairwiseEqual eq xs ys = pairwiseEqual eq' xs' ys' := by
  have hzip : ((xs.zip ys).all fun p => eq p.1 p.2) = (xs'.zip ys').all fun p => eq' p.1 p.2 := by
    induction hx generalizing ys ys' with
    | nil => rfl
    | cons hab _ ih =>
      cases hy with
      | nil => rfl
      | cons hcd hrest => simp only [List.zip_cons_cons, List.all_cons, h hab hcd, ih hrest]
  simp only [pairwiseEqual, hx.length_eq, hy.length_eq, hzip]

end

theorem forall₂_text (w : Pairing) (ts : List String) :
    List.Forall₂ (Value.Alike w) (ts.map .text) (ts.map .text) := by
  induction ts with
  | nil => exact .nil
  | cons t rest ih => exact .cons (.text t) ih

namespace Store.Alike

variable {w : Pairing} {s t : Store} (h : s.Alike w t)

/-! ## Equality -/

include h

theorem same_eq {f f' g g' : Function} (hf : f.Alike w f') (hg : g.Alike w g') :
    f.same g = f'.same g' := by
  cases hf with
  | builtin b => cases hg <;> rfl
  | native _ _ hi =>
    cases hg with
    | native _ _ hj => simp only [Function.same, h.identity_inj hi hj]
    | builtin | defined => rfl
  | defined hd =>
    cases hg with
    | defined he => simp only [Function.same, h.identity_inj hd.identity he.identity]
    | builtin | native => rfl

/-- Equality down to some depth, by induction on it. -/
theorem equalWithin_eq (room : Nat) {a a' b b' : Value} (ha : a.Alike w a') (hb : b.Alike w b') :
    s.equalWithin room a b = t.equalWithin room a' b' := by
  induction room generalizing a a' b b' with
  | zero => rfl
  | succ room ih =>
    cases ha with
    | list hr =>
      cases hb with
      | list hq =>
        simp only [equalWithin, h.place_inj hr hq,
          pairwiseEqual_eq_of_forall₂ (h.items hr) (h.items hq) ih]
      | _ => rfl
    | array hr =>
      cases hb with
      | array hq =>
        simp only [equalWithin, h.place_inj hr hq,
          pairwiseEqual_eq_of_forall₂ (h.items hr) (h.items hq) ih]
      | _ => rfl
    | map hr =>
      cases hb with
      | map hq =>
        simp only [equalWithin, h.place_inj hr hq]
        rw [pairwiseEqual_eq_of_forall₂ (h.entries hr) (h.entries hq) fun hx hy => ?_]
        simp only [hx.1, hy.1, ih hx.2 hy.2]
      | _ => rfl
    | object hr =>
      cases hb with
      | object hq => simp only [equalWithin, h.place_inj hr hq]
      | _ => rfl
    | record hr =>
      cases hb with
      | record hq => simp only [equalWithin, h.place_inj hr hq]
      | _ => rfl
    | function hf =>
      cases hb with
      | function hg => exact h.same_eq hf hg
      | _ => rfl
    | undefined | null | bool | int | float | text => cases hb <;> rfl

theorem equals_eq {a a' b b' : Value} (ha : a.Alike w a') (hb : b.Alike w b') :
    s.equals a b = t.equals a' b' := by
  simp only [equals, comparable, h.nestingFault?_eq ha, h.nestingFault?_eq hb, h.typeName_eq ha,
    h.typeName_eq hb, equal, h.equalWithin_eq _ ha hb]

/-! ## Order and arithmetic -/

omit h in
theorem toFloat?_eq {a a' : Value} (ha : a.Alike w a') : a.toFloat? = a'.toFloat? := by
  cases ha <;> rfl

omit h in
theorem orderValues_eq {a a' b b' : Value} (ha : a.Alike w a') (hb : b.Alike w b') :
    orderValues a b = orderValues a' b' := by
  cases ha <;> cases hb <;> rfl

theorem ordered_eq (accept : Ordering → Bool) {a a' b b' : Value} (ha : a.Alike w a')
    (hb : b.Alike w b') : s.ordered accept a b = t.ordered accept a' b' := by
  simp only [ordered, orderValues_eq ha hb, h.typeName_eq ha, h.typeName_eq hb]

theorem arithmetic_eq (op : BinaryOp) {a a' b b' : Value} (ha : a.Alike w a')
    (hb : b.Alike w b') : s.arithmetic op a b = t.arithmetic op a' b' := by
  have hta := h.typeName_eq ha
  have htb := h.typeName_eq hb
  have hfa := toFloat?_eq ha
  have hfb := toFloat?_eq hb
  unfold arithmetic
  cases ha with
  | int n =>
    cases hb with
    | int m => rfl
    | _ => simp only [hta, htb, hfb]
  | _ => simp only [hta, htb, hfa, hfb]

theorem concat_eq {a a' b b' : Value} (ha : a.Alike w a') (hb : b.Alike w b') :
    s.concat a b = t.concat a' b' := by
  simp only [concat, h.toText_eq ha, h.toText_eq hb]

theorem unary_eq (op : UnaryOp) {a a' : Value} (ha : a.Alike w a') :
    s.unary op a = t.unary op a' := by
  have hta := h.typeName_eq ha
  have htruth := h.isTruthy_eq ha
  unfold unary
  cases op with
  | not => simp only [htruth]
  | neg =>
    cases ha with
    | int n => rfl
    | float x => rfl
    | _ => simp only [hta]

/-! ## Counting and listing -/

theorem iterationItems {a b : Value} (hab : a.Alike w b) :
    ExceptAlike (List.Forall₂ (Value.Alike w)) (s.iterationItems a) (t.iterationItems b) := by
  have htype := h.typeName_eq hab
  cases hab with
  | undefined | null => exact .ok .nil
  | list hr | array hr => exact .ok (h.items hr)
  | map hr =>
    simp only [Store.iterationItems, (h.entries hr).keys_eq]
    exact .ok (forall₂_text w _)
  | object hr =>
    simp only [Store.iterationItems, h.objectKeys_eq hr]
    exact .ok (forall₂_text w _)
  | bool | int | float | text | record | function =>
    simp only [Store.iterationItems, htype]
    exact .error _

theorem countOf_eq {a b : Value} (hab : a.Alike w b) :
    Builtin.countOf s a = Builtin.countOf t b := by
  have htype := h.typeName_eq hab
  cases hab with
  | undefined | null | text => rfl
  | list hr | array hr => simp only [Builtin.countOf, (h.items hr).length_eq]
  | map hr => simp only [Builtin.countOf, (h.entries hr).size_eq]
  | object hr => simp only [Builtin.countOf, h.objectKeys_eq hr]
  | bool | int | float | record | function => simp only [Builtin.countOf, htype]

theorem joinItems {a b : Value} (hab : a.Alike w b) :
    ExceptAlike (List.Forall₂ (Value.Alike w)) (Builtin.joinItems s a) (Builtin.joinItems t b) := by
  have htype := h.typeName_eq hab
  cases hab with
  | undefined | null => exact .ok .nil
  | list hr | array hr => exact .ok (h.items hr)
  | bool | int | float | text | map | object | record | function =>
    simp only [Builtin.joinItems, htype]
    exact .error _

theorem keysOf_eq {a b : Value} (hab : a.Alike w b) :
    Builtin.keysOf s a = Builtin.keysOf t b := by
  have htype := h.typeName_eq hab
  cases hab with
  | undefined | null => rfl
  | map hr => simp only [Builtin.keysOf, (h.entries hr).keys_eq]
  | object hr => simp only [Builtin.keysOf, h.objectKeys_eq hr]
  | bool | int | float | text | list | array | record | function =>
    simp only [Builtin.keysOf, htype]

/-! ## Operators on two operands -/

omit h in
/-- Arithmetic gives numbers. -/
theorem alike_of_arithmetic {op : BinaryOp} {a b v : Value} (hv : s.arithmetic op a b = .ok v) :
    v.Alike w v := by
  have hexactly : ∀ {n}, exactly n = .ok v → v.Alike w v := by
    intro n hn
    unfold exactly at hn
    split at hn <;> cases hn
    exact .int _
  unfold arithmetic at hv
  split at hv
  · unfold arithmeticIntegers at hv
    split at hv
    · exact hexactly hv
    · exact hexactly hv
    · exact hexactly hv
    · unfold divideIntegers at hv
      split at hv
      · cases hv
      · split at hv <;> cases hv
        · exact .int _
        · exact .float _
    · unfold remainderIntegers at hv
      split at hv
      · cases hv
      · split at hv <;> cases hv
        exact .int _
  · split at hv
    · unfold arithmeticFloats at hv
      split at hv
      · cases hv; exact .float _
      · cases hv; exact .float _
      · cases hv; exact .float _
      · split at hv <;> cases hv
        exact .float _
      · split at hv <;> cases hv
        exact .float _
    · cases hv

/-- A value that refers to nothing is given without touching the stores. -/
theorem gives_same {r r' : Except ScriptFault Value} (hrr : r = r')
    (hplain : ∀ {v}, r = .ok v → v.Alike w v) :
    ExceptAlike (Gives Value.Alike w s t) (r.map fun v => (v, s)) (r'.map fun v => (v, t)) := by
  subst hrr
  cases r with
  | error e => exact .error e
  | ok v => exact .ok ⟨w, h.refl_step, hplain rfl⟩

theorem gives_bool {r r' : Except ScriptFault Bool} (hrr : r = r') (f : Bool → Bool) :
    ExceptAlike (Gives Value.Alike w s t) ((r.map fun b => Value.bool (f b)).map fun v => (v, s))
      ((r'.map fun b => Value.bool (f b)).map fun v => (v, t)) := by
  refine h.gives_same (by rw [hrr]) ?_
  intro v hv
  cases r <;> cases hv
  exact .bool _

theorem gives_order (accept : Ordering → Bool) {a a' b b' : Value} (ha : a.Alike w a')
    (hb : b.Alike w b') :
    ExceptAlike (Gives Value.Alike w s t) ((s.ordered accept a b).map fun v => (v, s))
      ((t.ordered accept a' b').map fun v => (v, t)) := by
  refine h.gives_same (h.ordered_eq accept ha hb) ?_
  intro v hv
  unfold ordered at hv
  split at hv <;> cases hv
  exact .bool _

theorem gives_arithmetic (op : BinaryOp) {a a' b b' : Value} (ha : a.Alike w a')
    (hb : b.Alike w b') :
    ExceptAlike (Gives Value.Alike w s t) ((s.arithmetic op a b).map fun v => (v, s))
      ((t.arithmetic op a' b').map fun v => (v, t)) :=
  h.gives_same (h.arithmetic_eq op ha hb) alike_of_arithmetic

theorem gives_concat {a a' b b' : Value} (ha : a.Alike w a') (hb : b.Alike w b') :
    ExceptAlike (Gives Value.Alike w s t) ((s.concat a b).map fun v => (v, s))
      ((t.concat a' b').map fun v => (v, t)) := by
  refine h.gives_same (h.concat_eq ha hb) ?_
  intro v hv
  unfold concat at hv
  cases hs : s.toText a with
  | error e => rw [hs] at hv; cases hv
  | ok x =>
    cases ht : s.toText b with
    | error e => rw [hs, ht] at hv; cases hv
    | ok y => rw [hs, ht] at hv; cases hv; exact .text _

/-- Joining lists opens a place on both sides. -/
theorem gives_add {a a' b b' : Value} (ha : a.Alike w a') (hb : b.Alike w b') :
    ExceptAlike (Gives Value.Alike w s t) (s.add a b) (t.add a' b') := by
  have hconcat := h.gives_concat ha hb
  have harith := h.gives_arithmetic .add ha hb
  cases ha with
  | text x => exact hconcat
  | list hr =>
    cases hb with
    | text y => exact hconcat
    | list hq =>
      refine .ok ⟨_, h.alloc (.items ?_), .list (.inr ⟨rfl, rfl⟩)⟩
      exact List.rel_append (h.items hr) (h.items hq)
    | _ => exact harith
  | _ =>
    cases hb with
    | text y => exact hconcat
    | _ => exact harith

theorem gives_binary (op : BinaryOp) {a a' b b' : Value} (ha : a.Alike w a')
    (hb : b.Alike w b') :
    ExceptAlike (Gives Value.Alike w s t) (s.binary op a b) (t.binary op a' b') := by
  have htruth := h.isTruthy_eq ha
  have heq := h.equals_eq ha hb
  cases op with
  | eq => exact h.gives_bool heq id
  | ne => exact h.gives_bool heq not
  | lt | gt | le | ge => exact h.gives_order _ ha hb
  | concat => exact h.gives_concat ha hb
  | add => exact h.gives_add ha hb
  | sub | mul | div | rem => exact h.gives_arithmetic _ ha hb
  | and =>
    refine .ok ⟨w, h.refl_step, ?_⟩
    simp only [htruth]
    split
    · exact hb
    · exact ha
  | or =>
    refine .ok ⟨w, h.refl_step, ?_⟩
    simp only [htruth]
    split
    · exact ha
    · exact hb

omit h in
theorem alike_of_unary {op : UnaryOp} {a v : Value} (hv : s.unary op a = .ok v) :
    v.Alike w v := by
  unfold unary at hv
  split at hv
  · cases hv; exact .bool _
  · unfold exactly at hv
    split at hv <;> cases hv
    exact .int _
  · cases hv; exact .float _
  · cases hv

end Store.Alike

end TemplateEngine
