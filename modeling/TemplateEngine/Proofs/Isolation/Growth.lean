import TemplateEngine.Proofs.Isolation.Stores

/-!
# Stores that stay alike

Both runs open places and number functions, and both change places that are paired. The pairing
grows with what is opened, and in the first store nothing changes but paired places
(`Pairing.Grows`). Each operation on stores is followed on both sides once.
-/

namespace TemplateEngine

/-- The same fault, or results that are related. -/
inductive ExceptAlike {ε α β : Type} (A : α → β → Prop) : Except ε α → Except ε β → Prop
  | ok {a : α} {b : β} : A a b → ExceptAlike A (.ok a) (.ok b)
  | error (e : ε) : ExceptAlike A (.error e) (.error e)

theorem Frame.Alike.set {w : Pairing} {f g : Frame} (h : f.Alike w g) (name : String)
    {a b : Value} (hab : a.Alike w b) :
    ExceptAlike (Frame.Alike w) (f.set name a) (g.set name b) := by
  unfold Frame.set
  rw [h.isReadOnly_eq name]
  split
  · exact .error _
  · exact .ok (h.define name hab false)

namespace Pairing

/-- The pairing grew while the first store was worked on: only by places that were opened, and a
place that was there and is not paired holds what it held. -/
structure Grows (w v : Pairing) (s s' : Store) : Prop where
  le : w ≤ v
  size : s.cells.size ≤ s'.cells.size
  nextIdentity : s.nextIdentity ≤ s'.nextIdentity
  place {r q : Nat} : v.place r q → w.place r q ∨ s.cells.size ≤ r
  frame {r : Nat} : r < s.cells.size → (∀ q, ¬ w.place r q) → s'.cell? r = s.cell? r

namespace Grows

variable {u v w : Pairing} {s s' s'' : Store}

theorem refl (w : Pairing) (s : Store) : w.Grows w s s :=
  ⟨w.le_refl, Nat.le_refl _, Nat.le_refl _, .inl, fun _ _ => rfl⟩

theorem trans (h : u.Grows v s s') (k : v.Grows w s' s'') : u.Grows w s s'' where
  le := Pairing.le_trans h.le k.le
  size := Nat.le_trans h.size k.size
  nextIdentity := Nat.le_trans h.nextIdentity k.nextIdentity
  place hr := by
    have hsize := h.size
    rcases k.place hr with hr | hr
    · exact h.place hr
    · exact .inr (by omega)
  frame {r} hr hfree := by
    have hsize := h.size
    have hfree' : ∀ q, ¬ v.place r q := fun q hq => by
      rcases h.place hq with hq | hq
      · exact hfree q hq
      · omega
    rw [k.frame (by omega) hfree', h.frame hr hfree]

end Grows

/-- One more pair of places. -/
def withPlace (w : Pairing) (r q : Ref) : Pairing :=
  ⟨fun x y => w.place x y ∨ x = r ∧ y = q, w.identity⟩

/-- The numbers from `n` up to `m` paired with those from `n'` on, in their order. -/
def withIdentities (w : Pairing) (n m n' : Nat) : Pairing :=
  ⟨w.place, fun i j => w.identity i j ∨ n ≤ i ∧ i < m ∧ i + n' = j + n⟩

theorem le_withPlace (w : Pairing) (r q : Ref) : w ≤ w.withPlace r q :=
  ⟨fun _ _ h => .inl h, fun _ _ h => h⟩

theorem le_withIdentities (w : Pairing) (n m n' : Nat) : w ≤ w.withIdentities n m n' :=
  ⟨fun _ _ h => h, fun _ _ h => .inl h⟩

end Pairing

/-- An operation on two stores that keeps them alike. Functions are paired only as they are
numbered. -/
structure StoreStep (w v : Pairing) (s t s' t' : Store) : Prop where
  grows : w.Grows v s s'
  alike : s'.Alike v t'
  identity {i j : Nat} : v.identity i j →
    w.identity i j ∨ s.nextIdentity ≤ i ∧ t.nextIdentity ≤ j

/-- What is given is related as the pairing then stands, and the stores are alike under it. -/
def Gives {α β : Type} (A : Pairing → α → β → Prop) (w : Pairing) (s t : Store) (x : α × Store)
    (y : β × Store) : Prop :=
  ∃ v, StoreStep w v s t x.2 y.2 ∧ A v x.1 y.1

theorem Store.cell?_alloc_self (s : Store) (c : Cell) :
    (s.alloc c).2.cell? s.cells.size = some c := by
  rw [cell?_alloc, if_pos rfl]

theorem Store.cell?_alloc_of_lt (s : Store) (c : Cell) {r : Nat} (hr : r < s.cells.size) :
    (s.alloc c).2.cell? r = s.cell? r := by
  rw [cell?_alloc, if_neg (Nat.ne_of_lt hr)]

namespace Store.Alike

variable {w : Pairing} {s t : Store} (h : s.Alike w t)

theorem root_lt (h : s.Alike w t) : 0 < s.cells.size ∧ 0 < t.cells.size := by
  obtain ⟨f, hs, ht, _⟩ := h.root
  exact ⟨(Array.getElem?_eq_some_iff.1 hs).1, (Array.getElem?_eq_some_iff.1 ht).1⟩

theorem place_lt (h : s.Alike w t) {r q : Nat} (hr : w.place r q) :
    r < s.cells.size ∧ q < t.cells.size := by
  obtain ⟨c, d, hc, hd, _⟩ := h.cell hr
  exact ⟨(Array.getElem?_eq_some_iff.1 hc).1, (Array.getElem?_eq_some_iff.1 hd).1⟩

include h

theorem refl_step : StoreStep w w s t s t := ⟨.refl w s, h, .inl⟩

/-- Opening a place on both sides. -/
theorem alloc {c d : Cell} (hcd : c.Alike w d) :
    StoreStep w (w.withPlace s.cells.size t.cells.size) s t (s.alloc c).2 (t.alloc d).2 := by
  have hle := w.le_withPlace s.cells.size t.cells.size
  refine ⟨⟨hle, ?_, Nat.le_refl _, ?_, ?_⟩, ⟨?_, ?_, h.identity_inj, h.identity_lt, ?_, ?_⟩, .inl⟩
  · simp [Store.alloc]
  · rintro r q (hr | ⟨rfl, -⟩)
    · exact .inl hr
    · exact .inr (Nat.le_refl _)
  · intro r hr _
    exact s.cell?_alloc_of_lt c hr
  · rintro r q (hr | ⟨rfl, rfl⟩)
    · obtain ⟨x, y, hx, hy, hxy⟩ := h.cell hr
      have hlt := h.place_lt hr
      exact ⟨x, y, (s.cell?_alloc_of_lt c hlt.1).trans hx, (t.cell?_alloc_of_lt d hlt.2).trans hy,
        hxy.mono hle⟩
    · exact ⟨c, d, s.cell?_alloc_self c, t.cell?_alloc_self d, hcd.mono hle⟩
  · rintro r q r' q' (hr | ⟨rfl, rfl⟩) (hr' | ⟨rfl, rfl⟩)
    · exact h.place_inj hr hr'
    · have := h.place_lt hr
      omega
    · have := h.place_lt hr'
      omega
    · simp
  · obtain ⟨f, hs, ht, hf⟩ := h.root
    have hlt := h.root_lt
    exact ⟨f, (s.cell?_alloc_of_lt c hlt.1).trans hs, (t.cell?_alloc_of_lt d hlt.2).trans ht,
      hf.mono hle⟩
  · have hlt := h.root_lt
    rintro r q (hr | ⟨rfl, rfl⟩)
    · exact h.place_ne_root hr
    · omega

/-- Changing a place that is paired. -/
theorem put {r q : Nat} (hr : w.place r q) {c d : Cell} (hcd : c.Alike w d) :
    StoreStep w w s t (s.put r c) (t.put q d) := by
  obtain ⟨x, y, hx, hy, _⟩ := h.cell hr
  have hne := h.place_ne_root hr
  refine ⟨⟨w.le_refl, ?_, Nat.le_refl _, .inl, ?_⟩,
    ⟨?_, h.place_inj, h.identity_inj, h.identity_lt, ?_, h.place_ne_root⟩, .inl⟩
  · simp [Store.put]
  · intro r' _ hfree
    exact cell?_put_of_ne s c fun he => hfree q (he ▸ hr)
  · intro r' q' hr'
    by_cases he : r = r'
    · obtain rfl := he
      obtain rfl := (h.place_inj hr hr').1 rfl
      exact ⟨c, d, cell?_put_self hx, cell?_put_self hy, hcd⟩
    · have he' : q ≠ q' := fun hq => he ((h.place_inj hr hr').2 hq)
      rw [cell?_put_of_ne s c he, cell?_put_of_ne t d he']
      exact h.cell hr'
  · obtain ⟨f, hs, ht, hf⟩ := h.root
    exact ⟨f, (cell?_put_of_ne s c hne.1).trans hs, (cell?_put_of_ne t d hne.2).trans ht, hf⟩

/-- Pairing numbers that are not paired yet. -/
theorem withIdentities {n m n' k k' : Nat} (hfree : ∀ i j, n ≤ i → i < m → ¬ w.identity i j)
    (hfree' : ∀ i j, n' ≤ j → ¬ w.identity i j) (hk : s.nextIdentity ≤ k) (hm : m ≤ k)
    (hk' : t.nextIdentity ≤ k') (hm' : m + n' ≤ k' + n) :
    (⟨s.cells, k⟩ : Store).Alike (w.withIdentities n m n') ⟨t.cells, k'⟩ := by
  have hle := w.le_withIdentities n m n'
  refine ⟨?_, h.place_inj, ?_, ?_, ?_, h.place_ne_root⟩
  · intro r q hr
    obtain ⟨x, y, hx, hy, hxy⟩ := h.cell hr
    exact ⟨x, y, hx, hy, hxy.mono hle⟩
  · rintro i j i' j' (hi | ⟨hn, hm, hij⟩) (hi' | ⟨hn', hm', hij'⟩)
    · exact h.identity_inj hi hi'
    · constructor
      · rintro rfl
        exact absurd hi (hfree _ _ hn' hm')
      · rintro rfl
        exact absurd hi (hfree' _ _ (by omega))
    · constructor
      · rintro rfl
        exact absurd hi' (hfree _ _ hn hm)
      · rintro rfl
        exact absurd hi' (hfree' _ _ (by omega))
    · omega
  · rintro i j (hi | ⟨hn, hm, hij⟩)
    · have := h.identity_lt hi
      simp only
      omega
    · simp only
      omega
  · obtain ⟨f, hs, ht, hf⟩ := h.root
    exact ⟨f, hs, ht, hf.mono hle⟩

/-- Numbering functions on both sides. -/
theorem number {m m' : Nat} (hm : s.nextIdentity ≤ m)
    (heven : m + t.nextIdentity = m' + s.nextIdentity) :
    StoreStep w (w.withIdentities s.nextIdentity m t.nextIdentity) s t ⟨s.cells, m⟩
      ⟨t.cells, m'⟩ where
  grows := ⟨w.le_withIdentities _ _ _, Nat.le_refl _, hm, .inl, fun _ _ => rfl⟩
  alike := by
    refine h.withIdentities (fun i j hi _ hij => ?_) (fun i j hj hij => ?_) hm (Nat.le_refl m)
      (by omega) (by omega)
    · have := (h.identity_lt hij).1
      omega
    · have := (h.identity_lt hij).2
      omega
  identity := by
    rintro i j (hi | ⟨hn, hm, hij⟩)
    · exact .inl hi
    · exact .inr (by omega)

/-! ## New values -/

omit h in
theorem gives_alloc {A : Pairing → Value → Value → Prop} (h : s.Alike w t) {c d : Cell}
    (hcd : c.Alike w d) {f : Ref → Value}
    (hf : ∀ {v : Pairing} {r q : Ref}, v.place r q → A v (f r) (f q)) :
    Gives A w s t (f (s.alloc c).1, (s.alloc c).2) (f (t.alloc d).1, (t.alloc d).2) :=
  ⟨_, h.alloc hcd, hf (.inr ⟨rfl, rfl⟩)⟩

theorem gives_newList {xs ys : List Value} (hxy : List.Forall₂ (Value.Alike w) xs ys) :
    Gives Value.Alike w s t (s.newList xs) (t.newList ys) := h.gives_alloc (.items hxy) .list

theorem gives_newMap {d e : Dictionary Value} (hde : d.Alike (Value.Alike w) e) :
    Gives Value.Alike w s t (s.newMap d) (t.newMap e) := h.gives_alloc (.entries hde) .map

theorem gives_newNamespace {f g : Frame} (hfg : f.Alike w g) :
    Gives Value.Alike w s t (s.newNamespace f) (t.newNamespace g) :=
  h.gives_alloc (.names hfg) .object

theorem gives_newNative (name operation : String) :
    Gives Value.Alike w s t (s.newNative name operation) (t.newNative name operation) := by
  refine ⟨_, h.number (Nat.le_succ _) (by omega), .function (.native name operation (.inr ?_))⟩
  exact ⟨Nat.le_refl _, Nat.lt_succ_self _, Nat.add_comm _ _⟩

/-! ## Changes inside a place -/

omit h in
theorem forall₂_set {α β : Type} {R : α → β → Prop} {xs : List α} {ys : List β}
    (h : List.Forall₂ R xs ys) (i : Nat) {a : α} {b : β} (hab : R a b) :
    List.Forall₂ R (xs.set i a) (ys.set i b) := by
  induction h generalizing i with
  | nil => exact .nil
  | cons hxy hrest ih =>
    cases i with
    | zero => exact .cons hab hrest
    | succ i => exact .cons hxy (ih i)

variable {r q : Nat} (hr : w.place r q) {a b : Value} (hab : a.Alike w b)

include hr hab

theorem setItem (i : Nat) : StoreStep w w s t (s.setItem r i a) (t.setItem q i b) := by
  obtain ⟨c, d, hc, hd, hcd⟩ := h.cell hr
  unfold Store.setItem
  rw [hc, hd]
  cases hcd with
  | items hx => exact h.put hr (.items (forall₂_set hx i hab))
  | entries | names | capability | record => exact h.refl_step

theorem setEntry (key : String) : StoreStep w w s t (s.setEntry r key a) (t.setEntry q key b) := by
  obtain ⟨c, d, hc, hd, hcd⟩ := h.cell hr
  unfold Store.setEntry
  rw [hc, hd]
  cases hcd with
  | entries hx => exact h.put hr (.entries (hx.insert key hab))
  | items | names | capability | record => exact h.refl_step

theorem objectSet (name : String) :
    ExceptAlike (StoreStep w w s t) (s.objectSet r name a) (t.objectSet q name b) := by
  obtain ⟨c, d, hc, hd, hcd⟩ := h.cell hr
  unfold Store.objectSet
  rw [hc, hd]
  cases hcd with
  | names hf =>
    have hset := hf.set name hab
    dsimp only
    generalize Frame.set _ name a = x at hset ⊢
    generalize Frame.set _ name b = y at hset ⊢
    cases hset with
    | ok hfg => exact .ok (h.put hr (.names hfg))
    | error e => exact .error e
  | capability hx =>
    simp only [hx.refuses]
    split
    · exact .error _
    · exact .ok h.refl_step
  | items | entries | record => exact .error _

omit hab in
theorem changeRecord {f g : Record → Record}
    (hfg : ∀ {x y}, x.Alike w y → (f x).Alike w (g y)) :
    StoreStep w w s t (s.changeRecord r f) (t.changeRecord q g) := by
  obtain ⟨c, d, hc, hd, hcd⟩ := h.cell hr
  unfold Store.changeRecord
  rw [hc, hd]
  cases hcd with
  | record hx => exact h.put hr (.record (hfg hx))
  | items | entries | names | capability => exact h.refl_step

end Store.Alike

end TemplateEngine
