import Mathlib.Data.List.Dedup
import Mathlib.Data.List.Induction
import TemplateEngine.Proofs.Isolation.Members
import TemplateEngine.State.Context

/-!
# Rules for members and items

A host declares the shapes of its record types one after the other; the last declaration for a type
counts (`Settings.get_declaring`). The members of a shape are known under transformed names; the
first member with a name counts (`MemberTable.get?_membersOf`). What the rule for a value would be
if it were made for this value alone does not depend on what was looked up before
(`Settings.freshRule`).

A table of members is made when the rule for a value of its concrete type is looked up for the
first time, and given out again after that. So the tables serve what was looked up: they are those
of the concrete types whose declared members were looked up, each made once
(`MemberAccessors.Serves`), and every rule that was given is given again, and reads and writes as
one made afresh (`MemberAccessors.Serves.asFresh`). The rules for items are those of the sequences
whose items were looked up (`SequenceAccessors.Serves`).
-/

namespace TemplateEngine

/-! ## Declarations -/

/-- The settings with the shapes of record types as they are declared, in this order. -/
def Settings.declaring (s : Settings) (declarations : List (String × Shape)) : Settings :=
  { s with shapes := declarations.foldl (fun shapes d => shapes.register d.1 d.2) .empty }

/-- The members of a concrete type: lists and arrays show their length, and a record type shows the
shape that was declared last for it, if there is one. -/
def lastShape (declarations : List (String × Shape)) : TypeKey → Shape
  | .list | .array => [("length", .length)]
  | .record type => (declarations.reverse.lookup type).getD []
  | .builtin _ => []

theorem Settings.get_declaring (s : Settings) (declarations : List (String × Shape))
    (key : TypeKey) : (s.declaring declarations).shapes.get key = lastShape declarations key := by
  cases key with
  | list | array | builtin kind => rfl
  | record type =>
    simp only [declaring, Shapes.get, lastShape]
    congr 1
    induction declarations using List.reverseRecOn with
    | nil => rfl
    | append_singleton rest d ih =>
      rw [List.foldl_append, List.foldl_cons, List.foldl_nil, Shapes.register,
        Dictionary.get?_insert, List.reverse_concat, List.lookup_cons, ih]
      by_cases h : d.1 = type
      · simp [h]
      · have hne : (type == d.1) = false := beq_eq_false_iff_ne.2 (Ne.symm h)
        simp [h, hne]

/-- The first member of a shape that templates know under a name. -/
def firstMember (transform : String → String) (shape : Shape) (name : String) : Option Member :=
  (shape.find? fun m => transform m.1 = name).map Prod.snd

theorem MemberTable.get?_membersOf (transform : String → String) (shape : Shape) (name : String) :
    (membersOf transform shape).get? name = firstMember transform shape name := by
  -- what is in the dictionary already comes first
  suffices h : ∀ d : Dictionary Member,
      (shape.foldl (fun d (m : String × Member) =>
        if d.contains (transform m.1) then d else d.insert (transform m.1) m.2) d).get? name =
        (d.get? name).or (firstMember transform shape name) by
    exact (h .empty).trans (by simp)
  induction shape with
  | nil => simp [firstMember]
  | cons m rest ih =>
    intro d
    rw [List.foldl_cons, ih]
    by_cases hname : transform m.1 = name
    · subst hname
      cases hd : d.get? (transform m.1) <;> simp [Dictionary.contains, firstMember, hd]
    · have hrest : firstMember transform (m :: rest) name = firstMember transform rest name := by
        simp [firstMember, hname]
      rw [hrest]
      split
      · rfl
      · rw [Dictionary.get?_insert_of_ne _ hname]

/-! ## Footings -/

/-- What tells which rule for members a value has. -/
inductive Footing
  | absent
  | object
  | map
  /-- The members are those that are declared for the concrete type. -/
  | declared (key : TypeKey)
deriving DecidableEq

/-- The footing of a value. -/
def Store.footing (s : Store) : Value → Footing
  | .undefined | .null => .absent
  | .object _ => .object
  | .map _ => .map
  | v => .declared (s.typeKey v)

/-- The concrete type tells the footing of every value but an object, which may call itself what it
likes. -/
def TypeKey.footing : TypeKey → Footing
  | .builtin kind =>
    if kind = "undefined" ∨ kind = "null" then .absent
    else if kind = "map" then .map
    else .declared (.builtin kind)
  | key => .declared key

theorem Store.footing_typeKey {s : Store} {v : Value} (h : s.footing v ≠ .object) :
    (s.typeKey v).footing = s.footing v := by
  cases v with
  | object r => exact absurd rfl h
  | list | array | record => rfl
  | undefined | null | bool | int | float | text | map | function =>
    simp [Store.typeKey, Store.typeName, TypeKey.footing, Store.footing]

/-- The rule for a value, made for it alone from the shape that was declared last. -/
def Settings.freshRule (s : Settings) (declarations : List (String × Shape)) (σ : Store)
    (v : Value) : MemberAccessor :=
  match σ.footing v with
  | .absent => .none
  | .object => .object
  | .map => .map
  | .declared key =>
    .reflected (.build 0 (σ.typeName v) s.transform (lastShape declarations key))

namespace MemberAccessor

variable {p q : MemberTable} (h : p.members = q.members)

include h

theorem get_reflected : (reflected p).get = (reflected q).get := by
  funext s v name
  simp only [get, h]

theorem set_reflected_eq : (reflected p).set = (reflected q).set := by
  funext s v name value
  simp only [set, h]

end MemberAccessor

namespace MemberAccessors

/-- The footing of a value tells how its rule is found. -/
theorem resolve_eq (a : MemberAccessors) (s : Store) (v : Value) :
    a.resolve s v =
      match s.footing v with
      | .absent => (.none, a)
      | .object => (.object, a)
      | .map => (.map, a)
      | .declared key =>
        (.reflected (a.table key (s.typeName v)).1, (a.table key (s.typeName v)).2) := by
  cases v <;> rfl

end MemberAccessors

/-! ## What was looked up -/

/-- A rule that was looked up for a value, in the store as it was then. -/
inductive Lookup
  /-- The rule for the members of the value. -/
  | members (store : Store) (target : Value) (rule : MemberAccessor)
  /-- The rule for its items, if it is a sequence. -/
  | items (store : Store) (target : Value) (rule : Option SequenceAccessor)

namespace Lookup

/-- The concrete type of a value whose declared members were looked up. -/
def declared? : Lookup → Option TypeKey
  | members σ v _ =>
    match σ.footing v with
    | .declared key => some key
    | _ => none
  | items _ _ _ => none

/-- The kind of a sequence whose items were looked up. -/
def sequence? : Lookup → Option SequenceAccessor
  | items _ v _ => SequenceAccessor.of? v
  | members _ _ _ => none

theorem declared?_eq_some_iff {σ : Store} {v : Value} {rule : MemberAccessor} {key : TypeKey} :
    (members σ v rule).declared? = some key ↔ σ.footing v = .declared key := by
  simp only [declared?]
  cases σ.footing v <;> simp

end Lookup

/-- Two lists with the same members, the first without repetitions. -/
theorem length_eq_length_dedup {α : Type} [DecidableEq α] {xs ys : List α} (h : xs.Nodup)
    (hmem : ∀ x, x ∈ xs ↔ x ∈ ys) : xs.length = ys.dedup.length := by
  refine List.Perm.length_eq ((List.perm_ext_iff_of_nodup h ys.nodup_dedup).2 fun x => ?_)
  rw [hmem, List.mem_dedup]

variable {s : Settings} {log : List Lookup}

/-! ## Rules for members -/

namespace MemberAccessors

variable {a b : MemberAccessors}

/-- The concrete types that have a table. -/
def keys (a : MemberAccessors) : List TypeKey := a.tables.map Prod.fst

/-- What is given for values of a footing, as long as no new table is needed for it. -/
inductive Gives (a : MemberAccessors) : Footing → MemberAccessor → Prop
  | absent : Gives a .absent .none
  | object : Gives a .object .object
  | map : Gives a .map .map
  | declared {key : TypeKey} {t : MemberTable} :
    a.tables.lookup key = some t → Gives a (.declared key) (.reflected t)

theorem Gives.unique {footing : Footing} {p q : MemberAccessor} (hp : a.Gives footing p)
    (hq : a.Gives footing q) : p = q := by
  cases hp with
  | absent | object | map =>
    cases hq
    rfl
  | declared hp =>
    cases hq with
    | declared hq => rw [Option.some.inj (hp.symm.trans hq)]

/-- A table for another concrete type changes nothing. -/
theorem Gives.insert {footing : Footing} {rule : MemberAccessor} (h : a.Gives footing rule)
    {key : TypeKey} (hnew : a.tables.lookup key = none) (t : MemberTable) :
    Gives { a with tables := (key, t) :: a.tables } footing rule := by
  cases h with
  | absent => exact .absent
  | object => exact .object
  | map => exact .map
  | @declared other u hu =>
    have hne : (other == key) = false := by
      rw [beq_eq_false_iff_ne]
      rintro rfl
      rw [hnew] at hu
      cases hu
    exact .declared (by rw [List.lookup_cons, hne]; exact hu)

theorem mem_of_lookup {key : TypeKey} {t : MemberTable} (h : a.tables.lookup key = some t) :
    (key, t) ∈ a.tables := by
  obtain ⟨before, after, heq, -⟩ := List.lookup_eq_some_iff.1 h
  rw [heq]
  simp

theorem not_mem_keys {key : TypeKey} (h : a.tables.lookup key = none) : key ∉ a.keys := by
  intro hmem
  obtain ⟨p, hp, rfl⟩ := List.mem_map.1 hmem
  simpa using List.lookup_eq_none_iff.1 h p hp

/-- What was looked up is given again, and the tables are those of the concrete types whose declared
members were looked up, each made once and numbered in turn. -/
structure Serves (s : Settings) (log : List Lookup) (a : MemberAccessors) : Prop where
  sound : a.Sound s.shapes s.transform
  given : ∀ σ v rule, .members σ v rule ∈ log → a.Gives (σ.footing v) rule
  asked : ∀ key ∈ a.keys, key ∈ log.filterMap Lookup.declared?
  distinct : a.keys.Nodup
  serials : a.tables.map (fun p => p.2.serial) = (List.range a.built).reverse

theorem serves_new (s : Settings) : (new s.shapes s.transform).Serves s [] where
  sound := sound_new _ _
  given := nofun
  asked := nofun
  distinct := .nil
  serials := rfl

namespace Serves

/-- A lookup that is answered without a new table. -/
theorem answered (h : a.Serves s log) {σ : Store} {v : Value} {rule : MemberAccessor}
    (hrule : a.Gives (σ.footing v) rule) : a.Serves s (log ++ [.members σ v rule]) where
  sound := h.sound
  given τ w other hmem := by
    rcases List.mem_append.1 hmem with hmem | hmem
    · exact h.given τ w other hmem
    · cases List.mem_singleton.1 hmem
      exact hrule
  asked key hkey := by
    rw [List.filterMap_append]
    exact List.mem_append_left _ (h.asked key hkey)
  distinct := h.distinct
  serials := h.serials

/-- A lookup of items has nothing to do with the tables. -/
theorem aside (h : a.Serves s log) (σ : Store) (v : Value) (rule : Option SequenceAccessor) :
    a.Serves s (log ++ [.items σ v rule]) where
  sound := h.sound
  given τ w other hmem := h.given τ w other (by simpa using hmem)
  asked key hkey := by
    rw [List.filterMap_append]
    exact List.mem_append_left _ (h.asked key hkey)
  distinct := h.distinct
  serials := h.serials

/-- The first lookup for a concrete type makes its table. -/
theorem made (h : a.Serves s log) {σ : Store} {v : Value} {key : TypeKey}
    (hv : σ.footing v = .declared key) (hnew : a.tables.lookup key = none) :
    (a.resolve σ v).2.Serves s (log ++ [.members σ v (a.resolve σ v).1]) := by
  have hsound := h.sound.resolve_sound σ v
  simp only [resolve_eq, hv, table_of_lookup_eq_none hnew] at hsound ⊢
  generalize ht : MemberTable.build a.built (σ.typeName v) a.transform (a.shapes.get key) = t
    at hsound
  have hserial : t.serial = a.built := ht ▸ rfl
  refine { sound := hsound, given := ?_, asked := ?_, distinct := ?_, serials := ?_ }
  · intro τ w rule hmem
    rcases List.mem_append.1 hmem with hmem | hmem
    · exact (h.given τ w rule hmem).insert hnew t
    · cases List.mem_singleton.1 hmem
      rw [hv]
      exact .declared (by simp)
  · intro other hother
    rw [List.filterMap_append, List.mem_append]
    rcases List.mem_cons.1 hother with rfl | hother
    · exact .inr (by simp [Lookup.declared?, hv])
    · exact .inl (h.asked other hother)
  · exact List.nodup_cons.2 ⟨not_mem_keys hnew, h.distinct⟩
  · rw [List.map_cons, h.serials, hserial, built, built, List.length_cons, List.range_succ,
      List.reverse_append]
    rfl

/-- Looking up a rule for members. -/
theorem resolve (h : a.Serves s log) (σ : Store) (v : Value) :
    (a.resolve σ v).2.Serves s (log ++ [.members σ v (a.resolve σ v).1]) := by
  cases hv : σ.footing v with
  | absent =>
    simp only [resolve_eq, hv]
    exact h.answered (hv ▸ .absent)
  | object =>
    simp only [resolve_eq, hv]
    exact h.answered (hv ▸ .object)
  | map =>
    simp only [resolve_eq, hv]
    exact h.answered (hv ▸ .map)
  | declared key =>
    cases hkey : a.tables.lookup key with
    | none => exact h.made hv hkey
    | some t =>
      simp only [resolve_eq, hv, table_of_lookup hkey]
      exact h.answered (hv ▸ .declared hkey)

/-- There are as many tables as different concrete types whose declared members were looked up. -/
theorem built_eq (h : a.Serves s log) :
    a.built = (log.filterMap Lookup.declared?).dedup.length := by
  have hkeys : a.keys.length = a.built := List.length_map _
  rw [← hkeys]
  refine length_eq_length_dedup h.distinct fun key => ⟨h.asked key, fun hkey => ?_⟩
  obtain ⟨l, hl, hdeclared⟩ := List.mem_filterMap.1 hkey
  cases l with
  | items σ v rule => cases hdeclared
  | members σ v rule =>
    have hgiven := h.given σ v rule hl
    rw [Lookup.declared?_eq_some_iff.1 hdeclared] at hgiven
    cases hgiven with
    | declared hlookup => exact List.mem_map_of_mem (mem_of_lookup hlookup)

/-- Two tables that were made at one time are for one concrete type. -/
theorem eq_of_serial_eq (h : a.Serves s log) {key other : TypeKey} {t u : MemberTable}
    (ht : a.tables.lookup key = some t) (hu : a.tables.lookup other = some u)
    (heq : t.serial = u.serial) : key = other := by
  have hnodup : (a.tables.map fun p => p.2.serial).Nodup := by
    rw [h.serials, List.nodup_reverse]
    exact List.nodup_range
  exact congrArg Prod.fst
    (List.inj_on_of_nodup_map hnodup (mem_of_lookup ht) (mem_of_lookup hu) heq)

/-- Rules are one and the same if they are for values of one footing. -/
theorem same_iff (h : a.Serves s log) {f g : Footing} {p q : MemberAccessor} (hp : a.Gives f p)
    (hq : a.Gives g q) : p.same q = true ↔ f = g := by
  cases hp with
  | absent | object | map => cases hq <;> simp [MemberAccessor.same]
  | declared hp =>
    cases hq with
    | absent | object | map => simp [MemberAccessor.same]
    | declared hq =>
      simp only [MemberAccessor.same, decide_eq_true_eq, Footing.declared.injEq]
      refine ⟨h.eq_of_serial_eq hp hq, ?_⟩
      rintro rfl
      rw [Option.some.inj (hp.symm.trans hq)]

theorem eq_iff (h : a.Serves s log) {f g : Footing} {p q : MemberAccessor} (hp : a.Gives f p)
    (hq : a.Gives g q) : p = q ↔ f = g := by
  constructor
  · rintro rfl
    have hrefl : p.same p = true := (h.same_iff hp hp).2 rfl
    exact (h.same_iff hp hq).1 hrefl
  · rintro rfl
    exact hp.unique hq

/-- A rule that is given reads and writes as one that is made afresh. -/
theorem asFresh {declarations : List (String × Shape)} (h : a.Serves (s.declaring declarations) log)
    {σ : Store} {v : Value} {rule : MemberAccessor} (hrule : a.Gives (σ.footing v) rule) :
    rule.get = (s.freshRule declarations σ v).get ∧
      rule.set = (s.freshRule declarations σ v).set := by
  unfold Settings.freshRule
  cases hv : σ.footing v with
  | absent | object | map =>
    rw [hv] at hrule
    cases hrule
    exact ⟨rfl, rfl⟩
  | declared key =>
    rw [hv] at hrule
    cases hrule with
    | declared hlookup =>
      have hmembers := h.sound.tables key _ hlookup
      rw [s.get_declaring] at hmembers
      exact ⟨MemberAccessor.get_reflected hmembers, MemberAccessor.set_reflected_eq hmembers⟩

end Serves

end MemberAccessors

/-- A concrete type has one footing, but for objects. -/
theorem Store.footing_eq_iff {σ τ : Store} {v w : Value} (h : σ.typeKey v = τ.typeKey w) :
    σ.footing v = τ.footing w ↔ (σ.footing v = .object ↔ τ.footing w = .object) := by
  constructor
  · intro heq
    rw [heq]
  · intro hobject
    by_cases hv : σ.footing v = .object
    · rw [hv, hobject.1 hv]
    · rw [← Store.footing_typeKey hv, ← Store.footing_typeKey (mt hobject.2 hv), h]

/-! ## Rules for items -/

/-- The rule for the items of a value is found by its concrete type. -/
def TypeKey.sequence? : TypeKey → Option SequenceAccessor
  | .list => some .growable
  | .array => some .fixed
  | _ => none

theorem SequenceAccessor.of?_eq (σ : Store) (v : Value) :
    SequenceAccessor.of? v = (σ.typeKey v).sequence? := by
  cases v <;> rfl

namespace SequenceAccessors

variable {a : SequenceAccessors}

theorem resolve_fst (a : SequenceAccessors) (v : Value) :
    (a.resolve v).1 = SequenceAccessor.of? v := by
  unfold resolve
  cases SequenceAccessor.of? v <;> rfl

theorem mem_made_resolve (a : SequenceAccessors) (v : Value) (k : SequenceAccessor) :
    k ∈ (a.resolve v).2.made ↔ k ∈ a.made ∨ SequenceAccessor.of? v = some k := by
  unfold resolve
  cases SequenceAccessor.of? v with
  | none => simp
  | some found =>
    by_cases hmem : found ∈ a.made
    · simp only [if_pos hmem, Option.some.injEq]
      refine ⟨.inl, ?_⟩
      rintro (hk | rfl)
      · exact hk
      · exact hmem
    · simp only [if_neg hmem, List.mem_cons, Option.some.injEq, or_comm, eq_comm]

theorem nodup_made_resolve (h : a.made.Nodup) (v : Value) : (a.resolve v).2.made.Nodup := by
  unfold resolve
  split
  · exact h
  · dsimp only
    split
    · exact h
    · next hnew => exact List.nodup_cons.2 ⟨hnew, h⟩

/-- The rules that were needed are those of the sequences whose items were looked up, each once. -/
structure Serves (log : List Lookup) (a : SequenceAccessors) : Prop where
  given : ∀ σ v rule, .items σ v rule ∈ log → rule = SequenceAccessor.of? v
  mem_made : ∀ k, k ∈ a.made ↔ k ∈ log.filterMap Lookup.sequence?
  distinct : a.made.Nodup

theorem serves_new : new.Serves [] where
  given := nofun
  mem_made _ := Iff.rfl
  distinct := .nil

namespace Serves

/-- Looking up a rule for items. -/
theorem resolve (h : a.Serves log) (σ : Store) (v : Value) :
    (a.resolve v).2.Serves (log ++ [.items σ v (a.resolve v).1]) where
  given τ w rule hmem := by
    rcases List.mem_append.1 hmem with hmem | hmem
    · exact h.given τ w rule hmem
    · cases List.mem_singleton.1 hmem
      exact a.resolve_fst v
  mem_made k := by
    rw [mem_made_resolve, h.mem_made, List.filterMap_append, List.mem_append]
    simp [Lookup.sequence?]
  distinct := nodup_made_resolve h.distinct v

/-- A lookup of members has nothing to do with the rules for items. -/
theorem aside (h : a.Serves log) (σ : Store) (v : Value) (rule : MemberAccessor) :
    a.Serves (log ++ [.members σ v rule]) where
  given τ w other hmem := h.given τ w other (by simpa using hmem)
  mem_made k := by
    rw [h.mem_made, List.filterMap_append]
    simp [Lookup.sequence?]
  distinct := h.distinct

theorem built_eq (h : a.Serves log) : a.built = (log.filterMap Lookup.sequence?).dedup.length :=
  length_eq_length_dedup h.distinct h.mem_made

end Serves

end SequenceAccessors

end TemplateEngine
