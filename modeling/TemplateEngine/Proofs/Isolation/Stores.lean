import TemplateEngine.Heap.Conversion
import TemplateEngine.Heap.Equality
import TemplateEngine.Proofs.Isolation.Cells

/-!
# Stores alike

Two stores are alike under a pairing if paired places hold what is alike, no two places or functions
of one store are paired to one of the other, and both stores keep the same namespace at their first
place, to which no value refers. Whatever is told about a value by following it through the store
is then the same: its kind, its text, its integer, what it is equal to.
-/

namespace TemplateEngine

/-- Paired places hold what is alike, and pairs go one to one. -/
structure Store.Alike (w : Pairing) (s t : Store) : Prop where
  cell {r q : Nat} : w.place r q →
    ∃ c d, s.cell? r = some c ∧ t.cell? q = some d ∧ c.Alike w d
  place_inj {r q r' q' : Nat} : w.place r q → w.place r' q' → (r = r' ↔ q = q')
  identity_inj {i j i' j' : Nat} : w.identity i j → w.identity i' j' → (i = i' ↔ j = j')
  identity_lt {i j : Nat} : w.identity i j → i < s.nextIdentity ∧ j < t.nextIdentity
  root : ∃ f : Frame, s.cell? 0 = some (.names f) ∧ t.cell? 0 = some (.names f) ∧ f.Alike w f
  place_ne_root {r q : Nat} : w.place r q → r ≠ 0 ∧ q ≠ 0

section

variable {α β γ : Type} {R : α → β → Prop} {xs : List α} {ys : List β}

theorem map_eq_of_forall₂ {f : α → γ} {g : β → γ} (h : List.Forall₂ R xs ys)
    (hfg : ∀ {x y}, R x y → f x = g y) : xs.map f = ys.map g := by
  induction h with
  | nil => rfl
  | cons hxy _ ih => simp only [List.map_cons, hfg hxy, ih]

theorem findSome?_eq_of_forall₂ {f : α → Option γ} {g : β → Option γ} (h : List.Forall₂ R xs ys)
    (hfg : ∀ {x y}, R x y → f x = g y) : xs.findSome? f = ys.findSome? g := by
  induction h with
  | nil => rfl
  | cons hxy _ ih => simp only [List.findSome?_cons, hfg hxy, ih]

theorem isEmpty_eq_of_forall₂ (h : List.Forall₂ R xs ys) : xs.isEmpty = ys.isEmpty := by
  cases h <;> rfl

end

namespace Store.Alike

variable {w : Pairing} {s t : Store} (h : s.Alike w t)

include h

/-! ## What places hold -/

theorem items {r q : Nat} (hr : w.place r q) :
    List.Forall₂ (Value.Alike w) (s.items r) (t.items q) := by
  obtain ⟨c, d, hc, hd, hcd⟩ := h.cell hr
  unfold Store.items
  rw [hc, hd]
  cases hcd with
  | items hx => exact hx
  | entries | names | capability | record => exact .nil

theorem entries {r q : Nat} (hr : w.place r q) :
    (s.entries r).Alike (Value.Alike w) (t.entries q) := by
  obtain ⟨c, d, hc, hd, hcd⟩ := h.cell hr
  unfold Store.entries
  rw [hc, hd]
  cases hcd with
  | entries hx => exact hx
  | items | names | capability | record => exact .empty

theorem record {r q : Nat} (hr : w.place r q) : (s.record r).Alike w (t.record q) := by
  obtain ⟨c, d, hc, hd, hcd⟩ := h.cell hr
  unfold Store.record
  rw [hc, hd]
  cases hcd with
  | record hx => exact hx
  | items | entries | names | capability => exact ⟨rfl, .empty⟩

theorem objectType_eq {r q : Nat} (hr : w.place r q) : s.objectType r = t.objectType q := by
  obtain ⟨c, d, hc, hd, hcd⟩ := h.cell hr
  unfold objectType
  rw [hc, hd]
  cases hcd with
  | capability hx => exact hx.typeName
  | items | entries | names | record => rfl

theorem objectKeys_eq {r q : Nat} (hr : w.place r q) : s.objectKeys r = t.objectKeys q := by
  obtain ⟨c, d, hc, hd, hcd⟩ := h.cell hr
  unfold objectKeys
  rw [hc, hd]
  cases hcd with
  | names hf => exact hf.names_eq
  | capability hx => exact hx.keys
  | items | entries | record => rfl

theorem objectGet {r q : Nat} (hr : w.place r q) (name : String) :
    (s.objectGet r name).Alike w (t.objectGet q name) := by
  obtain ⟨c, d, hc, hd, hcd⟩ := h.cell hr
  unfold Store.objectGet
  rw [hc, hd]
  cases hcd with
  | names hf => exact hf.get name
  | capability hx => exact hx.get name
  | items | entries | record => exact .undefined

/-- A member of the root namespace. -/
theorem rootGet (name : String) : (s.objectGet 0 name).Alike w (t.objectGet 0 name) := by
  obtain ⟨f, hs, ht, hf⟩ := h.root
  unfold Store.objectGet
  rw [hs, ht]
  exact hf.get name

/-! ## Kinds of values -/

variable {a b : Value} (hab : a.Alike w b)

include hab

theorem typeName_eq : s.typeName a = t.typeName b := by
  cases hab with
  | object hr => exact h.objectType_eq hr
  | record hr => exact (h.record hr).type
  | undefined | null | bool | int | float | text | list | array | map | function => rfl

theorem isTruthy_eq : s.isTruthy a = t.isTruthy b := by
  cases hab with
  | list hr | array hr => simp only [isTruthy, isEmpty_eq_of_forall₂ (h.items hr)]
  | map hr => simp only [isTruthy, (h.entries hr).isEmpty_eq]
  | undefined | null | bool | int | float | text | object | record | function => rfl

omit h hab in
/-- A walk has come through a place exactly if the other walk has come through the paired one. -/
theorem contains_path_eq (h : s.Alike w t) {path path' : List Ref}
    (hp : List.Forall₂ w.place path path') {r q : Nat} (hr : w.place r q) :
    path.contains r = path'.contains q := by
  induction hp with
  | nil => rfl
  | @cons x y _ _ hxy _ ih =>
    have hrx : (r == x) = (q == y) := by
      simp only [beq_eq_beq, h.place_inj hr hxy]
    simp only [List.contains_cons, hrx, ih]

omit hab in
/-- The parts of containers that are alike. -/
theorem container? {a b : Value} (hab : a.Alike w b) :
    Option.Rel (fun x y => w.place x.1 y.1 ∧ List.Forall₂ (Value.Alike w) x.2 y.2)
      (s.container? a) (t.container? b) := by
  cases hab with
  | list hr | array hr => exact .some ⟨hr, h.items hr⟩
  | map hr => exact .some ⟨hr, (h.entries hr).values⟩
  | undefined | null | bool | int | float | text | object | record | function => exact .none

omit hab in
/-- Walks stop for the same reason, by induction on the room that is left. -/
theorem faultWithin_eq (room : Nat) {path path' : List Ref} (hp : List.Forall₂ w.place path path')
    {a b : Value} (hab : a.Alike w b) : s.faultWithin room path a = t.faultWithin room path' b := by
  induction room generalizing path path' a b with
  | zero =>
    have hc := h.container? hab
    unfold faultWithin
    generalize s.container? a = x at hc ⊢
    generalize t.container? b = y at hc ⊢
    cases hc with
    | none => rfl
    | some hxy => simp only [h.contains_path_eq hp hxy.1]
  | succ room ih =>
    have hc := h.container? hab
    unfold faultWithin
    generalize s.container? a = x at hc ⊢
    generalize t.container? b = y at hc ⊢
    cases hc with
    | none => rfl
    | some hxy =>
      simp only [h.contains_path_eq hp hxy.1]
      rw [findSome?_eq_of_forall₂ hxy.2 fun huv => ih (.cons hxy.1 hp) huv]

theorem nestingFault?_eq : s.nestingFault? a = t.nestingFault? b := h.faultWithin_eq _ .nil hab

omit hab in
/-- Values that are alike have one text, by induction on the room that is left. -/
theorem displayWithin_eq (room : Nat) {path path' : List Ref}
    (hp : List.Forall₂ w.place path path') {a b : Value} (hab : a.Alike w b) :
    s.displayWithin room path a = t.displayWithin room path' b := by
  induction room generalizing path path' a b with
  | zero =>
    cases hab with
    | list hr | array hr | map hr => simp only [displayWithin, h.contains_path_eq hp hr]
    | object hr => simp only [displayWithin, h.objectType_eq hr]
    | record hr => simp only [displayWithin, (h.record hr).type]
    | function hf => simp only [displayWithin, hf.name_eq]
    | undefined | null | bool | int | float | text => rfl
  | succ room ih =>
    cases hab with
    | list hr | array hr =>
      simp only [displayWithin, h.contains_path_eq hp hr]
      rw [map_eq_of_forall₂ (h.items hr) fun hxy => ih (.cons hr hp) hxy]
    | map hr =>
      simp only [displayWithin, h.contains_path_eq hp hr]
      rw [map_eq_of_forall₂ (h.entries hr) fun hxy => by rw [hxy.1, ih (.cons hr hp) hxy.2]]
    | object hr => simp only [displayWithin, h.objectType_eq hr]
    | record hr => simp only [displayWithin, (h.record hr).type]
    | function hf => simp only [displayWithin, hf.name_eq]
    | undefined | null | bool | int | float | text => rfl

theorem toText_eq : s.toText a = t.toText b := by
  have hfault := h.nestingFault?_eq hab
  have htype := h.typeName_eq hab
  have hdisplay : s.display a = t.display b := h.displayWithin_eq _ .nil hab
  cases hab with
  | function hf => simp only [toText, hf.name_eq]
  | undefined | null | bool | int | float | text | list | array | map | object | record =>
    simp only [toText, hfault, htype, hdisplay]

theorem toInteger_eq : s.toInteger a = t.toInteger b := by
  have htype := h.typeName_eq hab
  cases hab with
  | undefined | null | bool | int | float | text => rfl
  | list | array | map | object | record | function => simp only [toInteger, htype]

end Store.Alike

end TemplateEngine
