import TemplateEngine.Proofs.Isolation.Pairing

/-!
# Cells alike

What a place holds is alike under a pairing if it is of one kind and its parts are alike. Everything
that reads or changes a dictionary or a frame respects this.
-/

namespace TemplateEngine

/-! ## Dictionaries -/

/-- The same keys with related values. -/
def Dictionary.Alike {α β : Type} (R : α → β → Prop) (d : Dictionary α) (e : Dictionary β) : Prop :=
  List.Forall₂ (fun x y => x.1 = y.1 ∧ R x.2 y.2) d.entries e.entries

namespace Dictionary.Alike

variable {α β : Type} {R S : α → β → Prop} {d d' : Dictionary α} {e e' : Dictionary β}

theorem mono (h : d.Alike R e) (hRS : ∀ {x y}, R x y → S x y) : d.Alike S e :=
  List.Forall₂.imp (fun _ _ hxy => ⟨hxy.1, hRS hxy.2⟩) h

theorem empty : (Dictionary.empty : Dictionary α).Alike R (Dictionary.empty : Dictionary β) := .nil

theorem keys_eq (h : d.Alike R e) : d.keys = e.keys := by
  unfold Dictionary.Alike at h
  unfold keys
  generalize d.entries = xs at h ⊢
  generalize e.entries = ys at h ⊢
  induction h with
  | nil => rfl
  | cons hxy _ ih => simp only [List.map_cons, hxy.1, ih]

theorem values (h : d.Alike R e) : List.Forall₂ R d.values e.values := by
  unfold Dictionary.Alike at h
  unfold Dictionary.values
  generalize d.entries = xs at h ⊢
  generalize e.entries = ys at h ⊢
  induction h with
  | nil => exact .nil
  | cons hxy _ ih => exact .cons hxy.2 ih

theorem size_eq (h : d.Alike R e) : d.size = e.size := List.Forall₂.length_eq h

theorem isEmpty_eq (h : d.Alike R e) : d.isEmpty = e.isEmpty := by
  unfold Dictionary.Alike at h
  unfold isEmpty
  generalize d.entries = xs at h ⊢
  generalize e.entries = ys at h ⊢
  cases h <;> rfl

theorem get? (h : d.Alike R e) (key : String) : Option.Rel R (d.get? key) (e.get? key) := by
  unfold Dictionary.Alike at h
  unfold Dictionary.get?
  generalize d.entries = xs at h ⊢
  generalize e.entries = ys at h ⊢
  induction h with
  | nil => exact .none
  | @cons x y _ _ hxy _ ih =>
    obtain ⟨k, v⟩ := x
    obtain ⟨l, u⟩ := y
    obtain ⟨rfl, hvu⟩ := hxy
    simp only [lookupEntry]
    split
    · exact .some hvu
    · exact ih

theorem insert (h : d.Alike R e) (key : String) {x : α} {y : β} (hxy : R x y) :
    (d.insert key x).Alike R (e.insert key y) := by
  unfold Dictionary.Alike at h ⊢
  unfold Dictionary.insert
  dsimp only
  generalize d.entries = xs at h ⊢
  generalize e.entries = ys at h ⊢
  induction h with
  | nil => exact .cons ⟨rfl, hxy⟩ .nil
  | @cons a b as bs hab hrest ih =>
    obtain ⟨k, v⟩ := a
    obtain ⟨l, u⟩ := b
    obtain ⟨rfl, hvu⟩ := hab
    simp only [insertEntry]
    split
    · exact .cons ⟨rfl, hxy⟩ (.cons ⟨rfl, hvu⟩ hrest)
    · split
      · exact .cons ⟨rfl, hxy⟩ hrest
      · exact .cons ⟨rfl, hvu⟩ ih

theorem foldl_insert {xs : List (String × α)} {ys : List (String × β)}
    (h : List.Forall₂ (fun x y => x.1 = y.1 ∧ R x.2 y.2) xs ys) (hd : d.Alike R e) :
    (xs.foldl (fun d (key, value) => d.insert key value) d).Alike R
      (ys.foldl (fun d (key, value) => d.insert key value) e) := by
  induction h generalizing d e with
  | nil => exact hd
  | @cons x y _ _ hxy _ ih =>
    obtain ⟨k, v⟩ := x
    obtain ⟨l, u⟩ := y
    obtain ⟨rfl, hvu⟩ := hxy
    exact ih (hd.insert k hvu)

theorem ofList {xs : List (String × α)} {ys : List (String × β)}
    (h : List.Forall₂ (fun x y => x.1 = y.1 ∧ R x.2 y.2) xs ys) :
    (Dictionary.ofList xs).Alike R (.ofList ys) := foldl_insert h empty

theorem update (h : d.Alike R e) (h' : d'.Alike R e') : (d.update d').Alike R (e.update e') :=
  foldl_insert h' h

end Dictionary.Alike

/-! ## Frames -/

structure Slot.Alike (w : Pairing) (s t : Slot) : Prop where
  value : s.value.Alike w t.value
  readOnly : s.readOnly = t.readOnly

/-- The same names, bound to values that are alike and locked alike. -/
def Frame.Alike (w : Pairing) (f g : Frame) : Prop := f.slots.Alike (Slot.Alike w) g.slots

namespace Frame.Alike

variable {w v : Pairing} {f g f' g' : Frame}

theorem mono (h : w ≤ v) (hf : f.Alike w g) : f.Alike v g :=
  Dictionary.Alike.mono hf fun hs => ⟨hs.value.mono h, hs.readOnly⟩

theorem empty (w : Pairing) : Frame.empty.Alike w .empty := Dictionary.Alike.empty

theorem get (h : f.Alike w g) (name : String) : (f.get name).Alike w (g.get name) := by
  have hs := Dictionary.Alike.get? h name
  unfold Frame.get Frame.get?
  revert hs
  rcases f.slots.get? name with _ | a <;> rcases g.slots.get? name with _ | b <;> intro hs
  · exact .undefined
  · cases hs
  · cases hs
  · cases hs with
    | some hab => exact hab.value

theorem isReadOnly_eq (h : f.Alike w g) (name : String) :
    f.isReadOnly name = g.isReadOnly name := by
  have hs := Dictionary.Alike.get? h name
  unfold Frame.isReadOnly
  revert hs
  rcases f.slots.get? name with _ | a <;> rcases g.slots.get? name with _ | b <;> intro hs
  · rfl
  · cases hs
  · cases hs
  · cases hs with
    | some hab => exact hab.readOnly

theorem define (h : f.Alike w g) (name : String) {a b : Value} (hab : a.Alike w b)
    (readOnly : Bool) : (f.define name a readOnly).Alike w (g.define name b readOnly) :=
  Dictionary.Alike.insert h name ⟨hab, rfl⟩

theorem update (h : f.Alike w g) (h' : f'.Alike w g') : (f.update f').Alike w (g.update g') :=
  Dictionary.Alike.update h h'

theorem names_eq (h : f.Alike w g) : f.names = g.names := Dictionary.Alike.keys_eq h

end Frame.Alike

/-! ## Cells -/

structure Record.Alike (w : Pairing) (x y : Record) : Prop where
  type : x.type = y.type
  fields : x.fields.Alike (Value.Alike w) y.fields

structure Capability.Alike (w : Pairing) (c d : Capability) : Prop where
  typeName : c.typeName = d.typeName
  get (name : String) : (c.get name).Alike w (d.get name)
  refuses : c.refuses = d.refuses
  keys : c.keys = d.keys

inductive Cell.Alike (w : Pairing) : Cell → Cell → Prop
  | items {xs ys : List Value} :
    List.Forall₂ (Value.Alike w) xs ys → Alike w (.items xs) (.items ys)
  | entries {d e : Dictionary Value} :
    d.Alike (Value.Alike w) e → Alike w (.entries d) (.entries e)
  | names {f g : Frame} : f.Alike w g → Alike w (.names f) (.names g)
  | capability {c d : Capability} : c.Alike w d → Alike w (.capability c) (.capability d)
  | record {x y : Record} : x.Alike w y → Alike w (.record x) (.record y)

theorem Cell.Alike.mono {w v : Pairing} (h : w ≤ v) {c d : Cell} (hc : c.Alike w d) :
    c.Alike v d := by
  cases hc with
  | items hx => exact .items (hx.imp fun _ _ hxy => hxy.mono h)
  | entries hd => exact .entries (hd.mono fun hxy => hxy.mono h)
  | names hf => exact .names (hf.mono h)
  | capability hc => exact .capability { hc with get := fun name => (hc.get name).mono h }
  | record hx => exact .record ⟨hx.type, hx.fields.mono fun hxy => hxy.mono h⟩

end TemplateEngine
