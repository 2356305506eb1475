import TemplateEngine.Proofs.Lexical.Values

/-!
# Fences around places

A fence names places of a store that have to stay as they are, and places that no value refers to,
and it says whether what is in the other places may only grow. What is opened lies outside of every
fence, and writing an item, an entry or a name takes nothing away. A change of a place that need not
stay leaves the others alone (`Store.Spared`), so whoever works with values that refer to no hidden
place gets and leaves behind such values only.
-/

namespace TemplateEngine

/-- The place that a value refers to. -/
def Value.ref? : Value → Option Ref
  | .list r | .array r | .map r | .object r | .record r => some r
  | .undefined | .null | .bool _ | .int _ | .float _ | .text _ | .function _ => none

/-- Places of a store: those that have to stay as they are, those that no value refers to, and
whether all places may only grow. -/
structure Fence where
  kept : Ref → Prop
  hidden : Ref → Prop
  growing : Prop

/-- No value refers to a place that has to stay as it is. -/
def Fence.Sealed (F : Fence) : Prop := ∀ r, F.kept r → F.hidden r

variable {F : Fence}

/-! ## Values that are known -/

/-- The value does not refer to a hidden place. -/
def Value.Known (F : Fence) (v : Value) : Prop := ∀ r ∈ v.ref?, ¬ F.hidden r

/-- The place that the value refers to need not stay as it is. -/
def Value.Outside (F : Fence) (v : Value) : Prop := ∀ r ∈ v.ref?, ¬ F.kept r

namespace Value

theorem known_of_plain {v : Value} (h : v.ref? = none) : v.Known F := by
  simp [Known, h]

theorem known_ofLiteral (l : Literal) : (ofLiteral l).Known F := by
  cases l <;> exact known_of_plain rfl

theorem known_getD {o : Option Value} (h : ∀ v ∈ o, v.Known F) :
    (o.getD .undefined).Known F := by
  cases o with
  | none => exact known_of_plain rfl
  | some v => exact h v rfl

theorem known_texts (names : List String) : ∀ v ∈ names.map Value.text, v.Known F := by
  simp only [List.forall_mem_map]
  exact fun _ _ => known_of_plain rfl

theorem Known.outside {v : Value} (h : v.Known F) (hF : F.Sealed) : v.Outside F :=
  fun r hr hkept => h r hr (hF r hkept)

end Value

/-- Every value that the frame binds is known. -/
def Frame.Known (F : Fence) (f : Frame) : Prop := f.slots.All fun s => s.value.Known F

namespace Frame.Known

theorem empty : Frame.empty.Known F := nofun

variable {f g : Frame}

theorem get (h : f.Known F) (name : String) : (f.get name).Known F := by
  unfold Frame.get Frame.get?
  cases hs : f.slots.get? name with
  | none => exact Value.known_of_plain rfl
  | some s => exact Dictionary.All.get? h s hs

theorem define (h : f.Known F) (name : String) {v : Value} (hv : v.Known F) (readOnly : Bool) :
    (f.define name v readOnly).Known F := Dictionary.All.insert h name hv

theorem set (h : f.Known F) {name : String} {v : Value} (hv : v.Known F)
    (hg : f.set name v = .ok g) : g.Known F := by
  obtain ⟨_, rfl⟩ := Frame.set_eq_ok_iff.1 hg
  exact h.define name hv false

theorem setReadOnly (h : f.Known F) (name : String) (readOnly : Bool) :
    (f.setReadOnly name readOnly).Known F := h.define name (h.get name) readOnly

theorem update (h : f.Known F) (hg : g.Known F) : (f.update g).Known F := by
  refine List.foldlRecOn (motive := fun d : Dictionary Slot => Frame.Known F ⟨d⟩)
    g.slots.entries _ h fun d hd x hx => ?_
  exact Dictionary.All.insert hd x.1 (hg x hx)

end Frame.Known

/-- Every value in the record is known. -/
def Record.Known (F : Fence) (x : Record) : Prop := x.fields.All (Value.Known F)

/-- Every value that the place holds or answers is known. -/
def Cell.Known (F : Fence) : Cell → Prop
  | .items xs => ∀ v ∈ xs, v.Known F
  | .entries d => d.All (Value.Known F)
  | .names f => f.Known F
  | .capability c => ∀ name, (c.get name).Known F
  | .record x => x.Known F

/-- The places of the fence are there, and every value in the store is known. -/
structure Store.Known (F : Fence) (s : Store) : Prop where
  kept_lt (r : Ref) : F.kept r → r < s.cells.size
  hidden_lt (r : Ref) : F.hidden r → r < s.cells.size
  cells (r : Ref) : ∀ c ∈ s.cell? r, c.Known F

/-! ## Places that grow -/

theorem Dictionary.contains_insert {α : Type} {d : Dictionary α} {name : String} (key : String)
    (v : α) (h : d.contains name = true) : (d.insert key v).contains name = true := by
  unfold contains at h ⊢
  rw [get?_insert]
  split
  · rfl
  · exact h

/-- The second place holds what the first one does and nothing has been taken away from it: a
sequence of the same length, a map or a namespace with the same keys and perhaps more, the same
object, or a record. -/
inductive Cell.Grown : Cell → Cell → Prop
  | items {xs ys : List Value} : ys.length = xs.length → Grown (.items xs) (.items ys)
  | entries {d e : Dictionary Value} :
    (∀ key, d.contains key = true → e.contains key = true) → Grown (.entries d) (.entries e)
  | names {f g : Frame} :
    (∀ name, f.contains name = true → g.contains name = true) → Grown (.names f) (.names g)
  | capability (c : Capability) : Grown (.capability c) (.capability c)
  | record (x y : Record) : Grown (.record x) (.record y)

namespace Cell.Grown

theorem refl (x : Cell) : x.Grown x := by
  cases x with
  | items xs => exact .items rfl
  | entries d => exact .entries fun _ => id
  | names f => exact .names fun _ => id
  | capability c => exact .capability c
  | record x => exact .record x x

theorem trans {x y z : Cell} (h : x.Grown y) (k : y.Grown z) : x.Grown z := by
  cases h with
  | items h =>
    cases k with
    | items k => exact .items (k.trans h)
  | entries h =>
    cases k with
    | entries k => exact .entries fun key hkey => k key (h key hkey)
  | names h =>
    cases k with
    | names k => exact .names fun name hname => k name (h name hname)
  | capability c => exact k
  | record x y =>
    cases k with
    | record y z => exact .record x z

theorem insert (d : Dictionary Value) (key : String) (v : Value) :
    (Cell.entries d).Grown (.entries (d.insert key v)) :=
  .entries fun _ => Dictionary.contains_insert key v

theorem define (f : Frame) (name : String) (v : Value) (readOnly : Bool) :
    (Cell.names f).Grown (.names (f.define name v readOnly)) :=
  .names fun other (hother : f.slots.contains other = true) => by
    unfold Frame.contains Frame.define
    exact Dictionary.contains_insert name _ hother

end Cell.Grown

/-- Every place holds the same kind of thing as before, and nothing has been taken away from it. -/
def Store.Grown (s t : Store) : Prop :=
  ∀ r x, s.cell? r = some x → ∃ y, t.cell? r = some y ∧ x.Grown y

/-- What has to stay is as it is in the first store, and everything has only grown if it has to. -/
structure Store.Stays (F : Fence) (s t : Store) : Prop where
  kept (r : Ref) : F.kept r → t.cell? r = s.cell? r
  grown : F.growing → s.Grown t

/-- What has to stay does so, and every value in the second store is known. -/
structure Store.Spared (F : Fence) (s t : Store) : Prop where
  known : t.Known F
  stays : s.Stays F t

namespace Store

variable {s t u : Store}

theorem Stays.of_cells (h : ∀ r, t.cell? r = s.cell? r) : s.Stays F t :=
  ⟨fun r _ => h r, fun _ r x hx => ⟨x, (h r).trans hx, .refl x⟩⟩

theorem Stays.refl (s : Store) : s.Stays F s := .of_cells fun _ => rfl

theorem Stays.trans (h : s.Stays F t) (k : t.Stays F u) : s.Stays F u where
  kept r hr := (k.kept r hr).trans (h.kept r hr)
  grown hgrowing r x hx := by
    obtain ⟨y, hy, hxy⟩ := h.grown hgrowing r x hx
    obtain ⟨z, hz, hyz⟩ := k.grown hgrowing r y hy
    exact ⟨z, hz, hxy.trans hyz⟩

theorem Known.spared (h : s.Known F) : s.Spared F s := ⟨h, .refl s⟩

namespace Known

variable (h : s.Known F)

include h

/-! ### Reading -/

theorem items (r : Ref) : ∀ v ∈ s.items r, v.Known F := by
  unfold Store.items
  split
  · next heq => exact h.cells r _ heq
  · nofun

theorem entries (r : Ref) : (s.entries r).All (Value.Known F) := by
  unfold Store.entries
  split
  · next heq => exact h.cells r _ heq
  · exact .empty

theorem record (r : Ref) : (s.record r).Known F := by
  unfold Store.record
  split
  · next heq => exact h.cells r _ heq
  · exact Dictionary.All.empty

theorem objectGet (r : Ref) (name : String) : (s.objectGet r name).Known F := by
  unfold Store.objectGet
  split
  · next heq => exact Frame.Known.get (h.cells r _ heq) name
  · next heq => exact h.cells r _ heq name
  · exact Value.known_of_plain rfl

/-! ### Opening -/

/-- What is opened next is neither hidden nor has to stay as it is. -/
theorem fresh {v : Value} (hv : v.ref? = some s.cells.size) : v.Known F ∧ v.Outside F := by
  refine ⟨fun r hr hhidden => ?_, fun r hr hkept => ?_⟩
  · obtain rfl := Option.some.inj (hv.symm.trans hr)
    exact Nat.lt_irrefl _ (h.hidden_lt _ hhidden)
  · obtain rfl := Option.some.inj (hv.symm.trans hr)
    exact Nat.lt_irrefl _ (h.kept_lt _ hkept)

theorem alloc {c : Cell} (hc : c.Known F) : s.Spared F (s.alloc c).2 where
  known := by
    have hsize : (s.alloc c).2.cells.size = s.cells.size + 1 := Array.size_push _
    refine ⟨fun r hr => hsize ▸ Nat.lt_succ_of_lt (h.kept_lt r hr),
      fun r hr => hsize ▸ Nat.lt_succ_of_lt (h.hidden_lt r hr), fun r d hd => ?_⟩
    rw [Option.mem_def, cell?_alloc] at hd
    split at hd
    · cases hd
      exact hc
    · exact h.cells r d hd
  stays := by
    have hold {r : Ref} (hr : r < s.cells.size) : (s.alloc c).2.cell? r = s.cell? r := by
      rw [cell?_alloc, if_neg (Nat.ne_of_lt hr)]
    refine ⟨fun r hr => hold (h.kept_lt r hr), fun _ r x hx => ⟨x, ?_, .refl x⟩⟩
    rw [hold (Array.getElem?_eq_some_iff.1 hx).1, hx]

/-- A sequence, a map or an object is opened. -/
theorem opened {c : Cell} (hc : c.Known F) {v : Value} (hv : v.ref? = some s.cells.size) :
    (v.Known F ∧ v.Outside F) ∧ s.Spared F (s.alloc c).2 := ⟨h.fresh hv, h.alloc hc⟩

theorem renumber (n : Nat) : s.Spared F ⟨s.cells, n⟩ :=
  ⟨⟨h.kept_lt, h.hidden_lt, h.cells⟩, .of_cells fun _ => rfl⟩

/-! ### Changing -/

variable {r : Ref} (hr : ¬ F.kept r)

include hr

theorem put {x c : Cell} (hx : s.cell? r = some x) (hgrown : x.Grown c) (hc : c.Known F) :
    s.Spared F (s.put r c) where
  known := by
    have hsize : (s.put r c).cells.size = s.cells.size := Array.size_setIfInBounds
    refine ⟨fun q hq => hsize ▸ h.kept_lt q hq, fun q hq => hsize ▸ h.hidden_lt q hq, ?_⟩
    intro q d hd
    by_cases hrq : r = q
    · subst hrq
      simp only [Store.put, cell?, Array.getElem?_setIfInBounds_self, Option.mem_def] at hd
      split at hd
      · cases hd
        exact hc
      · cases hd
    · rw [Option.mem_def, cell?_put_of_ne s c hrq] at hd
      exact h.cells q d hd
  stays := by
    refine ⟨fun q hq => cell?_put_of_ne s c fun hrq => hr (hrq ▸ hq), fun _ q y hy => ?_⟩
    by_cases hrq : r = q
    · subst hrq
      obtain rfl := Option.some.inj (hx.symm.trans hy)
      exact ⟨c, cell?_put_self hx, hgrown⟩
    · exact ⟨y, (cell?_put_of_ne s c hrq).trans hy, .refl y⟩

theorem setItem (i : Nat) {v : Value} (hv : v.Known F) : s.Spared F (s.setItem r i v) := by
  unfold Store.setItem
  split
  · next xs heq =>
    refine h.put hr heq (.items List.length_set) fun u hu => ?_
    rcases List.mem_or_eq_of_mem_set hu with hu | rfl
    · exact h.cells r _ heq u hu
    · exact hv
  · exact h.spared

theorem setEntry (key : String) {v : Value} (hv : v.Known F) :
    s.Spared F (s.setEntry r key v) := by
  unfold Store.setEntry
  split
  · next d heq =>
    exact h.put hr heq (.insert d key v) (Dictionary.All.insert (h.cells r _ heq) key hv)
  · exact h.spared

theorem changeRecord {change : Record → Record}
    (hc : ∀ x : Record, x.Known F → (change x).Known F) :
    s.Spared F (s.changeRecord r change) := by
  unfold Store.changeRecord
  split
  · next x heq => exact h.put hr heq (.record _ _) (hc x (h.cells r _ heq))
  · exact h.spared

theorem objectSet {name : String} {v : Value} (hv : v.Known F)
    (ht : s.objectSet r name v = .ok t) : s.Spared F t := by
  unfold Store.objectSet at ht
  split at ht
  · next f heq =>
    cases hset : f.set name v with
    | error e =>
      rw [hset] at ht
      cases ht
    | ok g =>
      rw [hset] at ht
      cases ht
      have hg := Frame.Known.set (h.cells r _ heq) hv hset
      obtain ⟨-, rfl⟩ := Frame.set_eq_ok_iff.1 hset
      exact h.put hr heq (.define f name v false) hg
  · split at ht
    · cases ht
    · cases ht
      exact h.spared
  · cases ht

theorem objectSetReadOnly {name : String} {readOnly : Bool}
    (ht : s.objectSetReadOnly? r name readOnly = some t) : s.Spared F t := by
  unfold Store.objectSetReadOnly? at ht
  split at ht
  · next f heq =>
    cases ht
    exact h.put hr heq (.define f name _ readOnly)
      (Frame.Known.setReadOnly (h.cells r _ heq) name readOnly)
  · cases ht

end Known

end Store

end TemplateEngine
