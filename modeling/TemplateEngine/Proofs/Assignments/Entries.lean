import TemplateEngine.Members.Accessor
import TemplateEngine.Members.Sequence

/-!
# Entries of containers

Lists and arrays have an entry at every position, maps and namespaces one under every name that they
bind. Whichever rule writes an entry, it writes that one entry and nothing else in the whole store
(`Store.Written`), and the rules that read give back what is there.
-/

namespace TemplateEngine

/-- What an entry of a container is found under. -/
inductive EntryKey
  | position (i : Nat)
  | name (name : String)
deriving DecidableEq

namespace Cell

/-- The value of an entry. -/
def entry? : Cell → EntryKey → Option Value
  | .items xs, .position i => xs[i]?
  | .entries d, .name name => d.get? name
  | .names f, .name name => f.get? name
  | _, _ => none

/-- Whether an entry is locked, as it can be in a namespace. -/
def isLocked : Cell → EntryKey → Bool
  | .names f, .name name => f.isReadOnly name
  | _, _ => false

/-- Whether new entries can be written. -/
def grows : Cell → Bool
  | .entries _ | .names _ => true
  | .items _ | .capability _ | .record _ => false

/-- Both are containers of one kind, and as long as each other if they are lists or arrays. -/
def SameForm : Cell → Cell → Prop
  | .items xs, .items ys => ys.length = xs.length
  | .entries _, .entries _ => True
  | .names _, .names _ => True
  | _, _ => False

end Cell

namespace Store

/-- The place of a list, an array, a map or a namespace; other values have no entries. -/
def keyed? (s : Store) : Value → Option Ref
  | .list r | .array r =>
    match s.cell? r with
    | some (.items _) => some r
    | _ => none
  | .map r =>
    match s.cell? r with
    | some (.entries _) => some r
    | _ => none
  | .object r =>
    match s.cell? r with
    | some (.names _) => some r
    | _ => none
  | _ => none

/-- The second store is the first one with an entry of one container written: the other entries of
this container, its locks, its kind and its length, and all other places are the same, and only maps
and namespaces can get an entry that they did not have. -/
structure Written (s : Store) (r : Ref) (k : EntryKey) (v : Value) (t : Store) : Prop where
  elsewhere (q : Ref) : q ≠ r → t.cell? q = s.cell? q
  size : t.cells.size = s.cells.size
  nextIdentity : t.nextIdentity = s.nextIdentity
  here : ∃ x y, s.cell? r = some x ∧ t.cell? r = some y ∧ x.SameForm y ∧
    y.entry? k = some v ∧ (∀ j, j ≠ k → y.entry? j = x.entry? j) ∧
    (∀ j, y.isLocked j = x.isLocked j) ∧ (x.entry? k = none → x.grows = true)

variable {s : Store} {o v : Value} {r : Ref}

theorem size_put (s : Store) (r : Ref) (c : Cell) : (s.put r c).cells.size = s.cells.size := by
  simp [put]

theorem Written.put {k : EntryKey} {x y : Cell} (hx : s.cell? r = some x) (hform : x.SameForm y)
    (hkey : y.entry? k = some v) (hother : ∀ j, j ≠ k → y.entry? j = x.entry? j)
    (hlocked : ∀ j, y.isLocked j = x.isLocked j) (hgrows : x.entry? k = none → x.grows = true) :
    s.Written r k v (s.put r y) where
  elsewhere _ hq := cell?_put_of_ne s y (Ne.symm hq)
  size := size_put s r y
  nextIdentity := rfl
  here := ⟨x, y, hx, cell?_put_self hx, hform, hkey, hother, hlocked, hgrows⟩

/-! ## What a container holds -/

theorem items_of_keyed {q : Ref} (h : s.keyed? (.list q) = some r) :
    q = r ∧ ∃ xs, s.cell? r = some (.items xs) := by
  simp only [keyed?] at h
  split at h
  · next xs hcell => cases h; exact ⟨rfl, xs, hcell⟩
  · cases h

theorem entries_of_keyed {q : Ref} (h : s.keyed? (.map q) = some r) :
    q = r ∧ ∃ d, s.cell? r = some (.entries d) := by
  simp only [keyed?] at h
  split at h
  · next d hcell => cases h; exact ⟨rfl, d, hcell⟩
  · cases h

theorem names_of_keyed {q : Ref} (h : s.keyed? (.object q) = some r) :
    q = r ∧ ∃ f, s.cell? r = some (.names f) := by
  simp only [keyed?] at h
  split at h
  · next f hcell => cases h; exact ⟨rfl, f, hcell⟩
  · cases h

/-- A container stays one for as long as its place holds one of the same kind. -/
theorem keyed?_of_sameForm {t : Store} (h : s.keyed? o = some r) {x y : Cell}
    (hx : s.cell? r = some x) (hy : t.cell? r = some y) (hform : x.SameForm y) :
    t.keyed? o = some r := by
  cases o with
  | list | array =>
    obtain ⟨rfl, xs, hcell⟩ := items_of_keyed h
    cases hcell.symm.trans hx
    cases y with
    | items ys => simp only [keyed?, hy]
    | _ => cases hform
  | map =>
    obtain ⟨rfl, d, hcell⟩ := entries_of_keyed h
    cases hcell.symm.trans hx
    cases y with
    | entries e => simp only [keyed?, hy]
    | _ => cases hform
  | object =>
    obtain ⟨rfl, f, hcell⟩ := names_of_keyed h
    cases hcell.symm.trans hx
    cases y with
    | names g => simp only [keyed?, hy]
    | _ => cases hform
  | _ => cases h

/-! ## Items -/

/-- A sequence with a rule for its items is a list or an array. -/
theorem items_of_rule (h : s.keyed? o = some r) {a : SequenceAccessor}
    (ha : SequenceAccessor.of? o = some a) :
    a.place? o = some r ∧ ∃ xs, s.cell? r = some (.items xs) := by
  cases o with
  | list | array =>
    cases ha
    obtain ⟨rfl, hcell⟩ := items_of_keyed h
    exact ⟨rfl, hcell⟩
  | _ => cases ha

/-- A position that is written has an item already. -/
theorem written_of_setItem {t : Store} (h : s.keyed? o = some r) {a : SequenceAccessor}
    (ha : SequenceAccessor.of? o = some a) {i : Int} (ht : a.set s o i v = .ok t) :
    0 ≤ i ∧ s.Written r (.position i.toNat) v t := by
  obtain ⟨hplace, xs, hcell⟩ := items_of_rule h ha
  have hitems : s.items r = xs := by simp [items, hcell]
  simp only [SequenceAccessor.set, hplace, hitems] at ht
  cases hin : inBounds i xs.length with
  | error e => rw [hin] at ht; cases ht
  | ok n =>
    rw [hin] at ht
    cases ht
    obtain ⟨rfl, hn⟩ := inBounds_eq_ok_iff.1 hin
    refine ⟨Int.natCast_nonneg n, ?_⟩
    rw [Int.toNat_natCast, setItem, hcell]
    refine .put hcell ?_ ?_ ?_ (fun j => rfl) ?_
    · exact List.length_set
    · simp [Cell.entry?, hn]
    · rintro (j | name) hj
      · have hne : n ≠ j := fun hnj => hj (congrArg _ hnj.symm)
        simp [Cell.entry?, List.getElem?_set_ne hne]
      · rfl
    · intro hnone
      simp only [Cell.entry?, List.getElem?_eq_none_iff] at hnone
      omega

/-- The item at a position is read. -/
theorem get_of_position (h : s.keyed? o = some r) {a : SequenceAccessor}
    (ha : SequenceAccessor.of? o = some a) {i : Int} (hi : 0 ≤ i) {x : Cell}
    (hx : s.cell? r = some x) (hv : x.entry? (.position i.toNat) = some v) :
    a.get s o i = .ok v := by
  obtain ⟨hplace, xs, hcell⟩ := items_of_rule h ha
  obtain rfl : x = .items xs := Option.some.inj (hx.symm.trans hcell)
  have hitems : s.items r = xs := by simp [items, hcell]
  have hv : xs[i.toNat]? = some v := hv
  obtain ⟨hlt, -⟩ := List.getElem?_eq_some_iff.1 hv
  have hin : inBounds i xs.length = .ok i.toNat := inBounds_eq_ok_iff.2 ⟨by omega, hlt⟩
  simp only [SequenceAccessor.get, hplace, hitems, hin]
  change Except.ok (xs[i.toNat]?.getD .undefined) = .ok v
  rw [hv]
  rfl

/-! ## Members -/

/-- A list or an array has no member that could be written. -/
theorem written_of_setMember {t : Store} (h : s.keyed? o = some r) {a : MemberAccessors}
    {name : String} (ht : (a.resolve s o).1.set s o name v = .ok t) :
    s.Written r (.name name) v t := by
  have hother (x y : Cell)
      (hname : ∀ key, name ≠ key → y.entry? (.name key) = x.entry? (.name key))
      (hposition : ∀ i, y.entry? (.position i) = x.entry? (.position i)) :
      ∀ j, j ≠ .name name → y.entry? j = x.entry? j := by
    rintro (i | key) hj
    · exact hposition i
    · exact hname key fun hk => hj (congrArg _ hk.symm)
  cases o with
  | list | array =>
    simp only [MemberAccessors.resolve, MemberAccessor.set] at ht
    split at ht
    · next m hm =>
      cases m with
      | length => cases ht
      | field read write => cases write <;> cases ht
    · cases ht
  | map =>
    obtain ⟨rfl, d, hcell⟩ := entries_of_keyed h
    simp only [MemberAccessors.resolve, MemberAccessor.set, setEntry, hcell] at ht
    cases ht
    refine .put hcell trivial (by simp [Cell.entry?])
      (hother _ _ (fun key hkey => ?_) fun _ => rfl) (fun _ => rfl) fun _ => rfl
    simp [Cell.entry?, hkey]
  | object =>
    obtain ⟨rfl, f, hcell⟩ := names_of_keyed h
    simp only [MemberAccessors.resolve, MemberAccessor.set, objectSet, hcell] at ht
    cases hset : f.set name v with
    | error e => rw [hset] at ht; cases ht
    | ok g =>
      rw [hset] at ht
      cases ht
      obtain ⟨hfree, rfl⟩ := Frame.set_eq_ok_iff.1 hset
      refine .put hcell trivial (by simp [Cell.entry?])
        (hother _ _ (fun key hkey => ?_) fun _ => rfl) ?_ fun _ => rfl
      · simp [Cell.entry?, hkey]
      · rintro (i | key)
        · rfl
        · by_cases hk : name = key
          · subst hk; simp [Cell.isLocked, hfree]
          · simp [Cell.isLocked, hk]
  | _ => cases h

/-- What is bound to a name is read as it is. -/
theorem get_of_name (h : s.keyed? o = some r) {a : MemberAccessors} {name : String} {x : Cell}
    (hx : s.cell? r = some x) (hv : x.entry? (.name name) = some v) :
    (a.resolve s o).1.get s o name = .value v := by
  cases o with
  | list | array =>
    obtain ⟨rfl, xs, hcell⟩ := items_of_keyed h
    cases hcell.symm.trans hx
    cases hv
  | map =>
    obtain ⟨rfl, d, hcell⟩ := entries_of_keyed h
    cases hcell.symm.trans hx
    have hv : d.get? name = some v := hv
    simp [MemberAccessors.resolve, MemberAccessor.get, entries, hcell, hv]
  | object =>
    obtain ⟨rfl, f, hcell⟩ := names_of_keyed h
    cases hcell.symm.trans hx
    have hv : f.get? name = some v := hv
    simp [MemberAccessors.resolve, MemberAccessor.get, objectGet, hcell, Frame.get, hv]
  | _ => cases h

end Store

end TemplateEngine
