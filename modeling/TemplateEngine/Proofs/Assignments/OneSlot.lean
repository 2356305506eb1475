import TemplateEngine.Proofs.Assignments.Entries
import TemplateEngine.Proofs.Suppression.Outermost

/-!
# Assignments write one slot

A target such as `a.b` or `a[i]` names an entry of what its left side gives. An assignment goes the
same way as a read up to that entry: the left side and the key are evaluated as they would be to
read it, and functions that come out are called (`Machine.Blind.assign_entry`,
`Machine.Blind.evaluate_entry`). What is left to do then finds the entry (`EntryTarget.found`) and
writes it, or fails and changes nothing (`assignment_writes_one_slot`).
-/

namespace TemplateEngine

open TemplateEngine.Action

/-- A target that names an entry of another value. -/
inductive EntryTarget
  | member (target : Expr) (name : String) (position : Position)
  | item (target key : Expr) (position : Position)

/-- The contexts differ at most in the rules for members and items that were found so far. -/
def Context.SameButRules (c d : Context) : Prop :=
  d = { c with members := d.members, sequences := d.sequences }

namespace EntryTarget

/-- The target as it is written. -/
def expr : EntryTarget → Expr
  | member target name p => .member target name p
  | item target key p => .index target key p

/-- Where it is written. -/
def position : EntryTarget → Position
  | member _ _ p | item _ _ p => p

/-- The value that has the entry, and the key: the left side is evaluated, and then the key if there
is a value to look it up in. -/
def parts (m : Machine) : EntryTarget → Action (Value × Value)
  | member target name _ => do
    let object ← target.evaluate m
    pure (object, .text name)
  | item target key p => do
    let object ← target.evaluate m
    if object.isAbsent then failAt p (.indexOfNull target.display)
    else
      let k ← key.evaluate m
      pure (object, k)

/-- The entry, once the parts are known. -/
def place (object key : Value) : EntryTarget → Action Place
  | member target name p => Place.ofMember object name target p
  | item target k p => Place.ofKey object key k.position target p

/-- What the entry is found under: maps and objects take the text of a key, lists and arrays its
integer. -/
def key? (s : Store) (object key : Value) : EntryTarget → Option EntryKey
  | member _ name _ => some (.name name)
  | item _ _ _ =>
    if key.isAbsent then none
    else
      match object with
      | .map _ | .object _ => (s.toText key).toOption.map .name
      | _ => (s.toInteger key).toOption.bind fun i =>
        if 0 ≤ i then some (.position i.toNat) else none

end EntryTarget

/-! ## One way to the entry -/

namespace Machine.Blind

variable {m : Machine} (h : m.Blind)

include h

/-- On the way to an entry, an expression is evaluated as it is elsewhere. -/
theorem reach_inner (e : Expr) : e.reach m false = e.evaluate m := by
  rw [Expr.reach_eq, h.evaluate_eq, h.evaluateUninvoked_eq]
  exact congrArg (e.arrive m >>= ·) (funext (m.settle_inner e.position))

/-- Reading goes over the parts and the place of the entry, and calls a function that comes out. -/
theorem evaluate_entry (e : EntryTarget) :
    e.expr.evaluate m = (do
      let parts ← e.parts m
      let place ← e.place parts.1 parts.2
      let v ← place.read
      m.invoke e.position v) := by
  rw [h.evaluate_eq, h.evaluateUninvoked_eq]
  cases e with
  | member target name p =>
    simp only [EntryTarget.expr, EntryTarget.parts, EntryTarget.place, EntryTarget.position,
      Expr.arrive, Expr.position, h.reach_inner, bind_assoc, pure_bind]
  | item target key p =>
    simp only [EntryTarget.expr, EntryTarget.parts, EntryTarget.place, EntryTarget.position,
      Expr.arrive, Expr.position, h.reach_inner, bind_assoc, pure_bind, ite_bind, failAt_bind]

/-- Assigning goes over the same parts and the same place. -/
theorem assign_entry (e : EntryTarget) (v : Value) :
    e.expr.assign m v = (do
      let parts ← e.parts m
      let place ← e.place parts.1 parts.2
      place.write v) := by
  rw [Expr.assign, (h.write v e.expr).withSuppression_eq]
  cases e with
  | member target name p =>
    simp only [EntryTarget.expr, EntryTarget.parts, EntryTarget.place, Expr.write,
      h.reach_inner, bind_assoc, pure_bind]
  | item target key p =>
    simp only [EntryTarget.expr, EntryTarget.parts, EntryTarget.place, Expr.write,
      h.reach_inner, bind_assoc, pure_bind, ite_bind, failAt_bind]

end Machine.Blind

/-! ## Finding the entry -/

namespace Context.SameButRules

variable {c d e : Context}

theorem refl (c : Context) : c.SameButRules c := rfl

theorem trans (h : c.SameButRules d) (k : d.SameButRules e) : c.SameButRules e := by
  unfold SameButRules at *
  rw [k, h]

theorem store (h : c.SameButRules d) : d.store = c.store := by rw [h]

end Context.SameButRules

/-- The place is the entry of a value that a target and a key stand for. -/
inductive Place.Names (s : Store) (e : EntryTarget) (o k : Value) : Place → Prop
  | member {name : String} (target : Expr) (p : Position)
    (hkey : e.key? s o k = some (.name name)) : Names s e o k (.member o name target p)
  | item {a : SequenceAccessor} {i : Int} (target : Expr) (p : Position)
    (ha : SequenceAccessor.of? o = some a)
    (hkey : e.key? s o k = if 0 ≤ i then some (.position i.toNat) else none) :
    Names s e o k (.item a o i target p)

/-- Looking for an entry ends with its place, or fails because the value has no entries or the key
is none for it. -/
def Place.FoundFrom (e : EntryTarget) (o k : Value) (c : Context) (x : Action Place) : Prop :=
  ∃ d, c.SameButRules d ∧
    ((∃ place, x c = (.ok place, d) ∧ place.Names c.store e o k) ∨
      (∃ fault, x c = (.error fault, d)) ∧
        (c.store.keyed? o = none ∨ e.key? c.store o k = none))

theorem Action.toText_apply (v : Value) (p : Position) (c : Context) :
    toText v p c = match c.store.toText v with
      | .ok t => (.ok t, c)
      | .error fault => (.error (.script p (.conversion fault)), c) := by
  simp only [toText, tryView]
  cases c.store.toText v <;> rfl

theorem Action.toInteger_apply (v : Value) (p : Position) (c : Context) :
    toInteger v p c = match c.store.toInteger v with
      | .ok i => (.ok i, c)
      | .error fault => (.error (.script p (.conversion fault)), c) := by
  simp only [toInteger, tryView]
  cases c.store.toInteger v <;> rfl

namespace EntryTarget

theorem found_member (target : Expr) (name : String) (p : Position) (o k : Value) (c : Context) :
    Place.FoundFrom (.member target name p) o k c (Place.ofMember o name target p) := by
  refine ⟨c, .refl c, ?_⟩
  cases o with
  | undefined | null | bool | int | float | text => exact .inr ⟨⟨_, rfl⟩, .inl rfl⟩
  | _ => exact .inl ⟨_, rfl, .member target p rfl⟩

/-- In a list or an array, the integer of the key is the position. -/
theorem found_position {a : SequenceAccessor} {o : Value} (ha : SequenceAccessor.of? o = some a)
    (target i : Expr) (p : Position) {k : Value} (habsent : k.isAbsent = false) (c : Context) :
    Place.FoundFrom (.item target i p) o k c (Place.ofKey o k i.position target p) := by
  have hlook : sequenceAccessor o c =
      (.ok (some a), { c with sequences := (c.sequences.resolve o).2 }) := by
    simp only [sequenceAccessor, SequenceAccessors.resolve, ha]
  have hplace : Place.ofKey o k i.position target p c =
      (toInteger k i.position >>= fun n => pure (.item a o n target p))
        { c with sequences := (c.sequences.resolve o).2 } := by
    simp only [Place.ofKey, habsent]
    cases o with
    | list | array =>
      rw [if_neg nofun]
      exact bind_of_ok hlook
    | _ => cases ha
  have hkey : (EntryTarget.item target i p).key? c.store o k =
      (c.store.toInteger k).toOption.bind fun n =>
        if 0 ≤ n then some (.position n.toNat) else none := by
    simp only [key?, habsent]
    cases o with
    | list | array => rfl
    | _ => cases ha
  refine ⟨{ c with sequences := (c.sequences.resolve o).2 }, rfl, ?_⟩
  rw [hplace, hkey, bind_apply, toInteger_apply]
  cases hint : c.store.toInteger k with
  | error fault => exact .inr ⟨⟨_, rfl⟩, .inr rfl⟩
  | ok n =>
    refine .inl ⟨_, rfl, .item target p ha ?_⟩
    rw [hkey, hint]
    rfl

/-- In a map or an object, the text of the key is the name. -/
theorem found_text {o : Value} (ho : (∃ r, o = .map r) ∨ ∃ r, o = .object r) (target i : Expr)
    (p : Position) {k : Value} (habsent : k.isAbsent = false) (c : Context) :
    Place.FoundFrom (.item target i p) o k c (Place.ofKey o k i.position target p) := by
  have hplace : Place.ofKey o k i.position target p =
      toText k i.position >>= fun name => pure (.member o name target p) := by
    obtain ⟨r, rfl⟩ | ⟨r, rfl⟩ := ho <;> simp only [Place.ofKey, habsent] <;> rfl
  have hkey : (EntryTarget.item target i p).key? c.store o k =
      (c.store.toText k).toOption.map .name := by
    obtain ⟨r, rfl⟩ | ⟨r, rfl⟩ := ho <;> simp only [key?, habsent] <;> rfl
  refine ⟨c, .refl c, ?_⟩
  rw [hplace, hkey, bind_apply, toText_apply]
  cases htext : c.store.toText k with
  | error fault => exact .inr ⟨⟨_, rfl⟩, .inr rfl⟩
  | ok name =>
    refine .inl ⟨_, rfl, .member target p ?_⟩
    rw [hkey, htext]
    rfl

theorem found_item (target i : Expr) (p : Position) (o k : Value) (c : Context) :
    Place.FoundFrom (.item target i p) o k c (Place.ofKey o k i.position target p) := by
  cases habsent : k.isAbsent with
  | true =>
    have hplace : Place.ofKey o k i.position target p = failAt p (.nullIndex target.display) := by
      simp only [Place.ofKey, habsent, if_true]
    rw [hplace]
    exact ⟨c, .refl c, .inr ⟨⟨_, rfl⟩, .inr (by simp only [key?, habsent, if_true])⟩⟩
  | false =>
    cases o with
    | map r => exact found_text (.inl ⟨r, rfl⟩) target i p habsent c
    | object r => exact found_text (.inr ⟨r, rfl⟩) target i p habsent c
    | list | array => exact found_position rfl target i p habsent c
    | _ =>
      simp only [Place.ofKey, habsent]
      exact ⟨c, .refl c, .inr ⟨⟨_, rfl⟩, .inl rfl⟩⟩

theorem found (e : EntryTarget) (o k : Value) (c : Context) :
    Place.FoundFrom e o k c (e.place o k) := by
  cases e with
  | member target name p => exact found_member target name p o k c
  | item target i p => exact found_item target i p o k c

end EntryTarget

/-! ## Reading and writing it -/

namespace Place.Names

variable {place : Place} {e : EntryTarget} {o k v : Value} {c : Context} {r : Ref}

/-- What stands under the key is read. -/
theorem read {x : Cell} {key : EntryKey} (h : place.Names c.store e o k)
    (hkeyed : c.store.keyed? o = some r) (hx : c.store.cell? r = some x)
    (hkey : e.key? c.store o k = some key) (hv : x.entry? key = some v) :
    ∃ d, c.SameButRules d ∧ place.read c = (.ok v, d) := by
  cases h with
  | member target p hname =>
    cases hname.symm.trans hkey
    have hget := Store.get_of_name hkeyed (a := c.members) hx hv
    refine ⟨{ c with members := (c.members.resolve c.store o).2 }, rfl, ?_⟩
    simp only [Place.read, readMember, bind_apply, memberAccessor, inStore, view, hget]
    rfl
  | item target p ha hposition =>
    rw [hkey] at hposition
    split at hposition
    case isTrue hi =>
      cases hposition
      have hget := Store.get_of_position hkeyed ha hi hx hv
      refine ⟨c, .refl c, ?_⟩
      simp only [Place.read, tryView, hget]
      rfl
    case isFalse => cases hposition

/-- Writing fails and changes nothing, or writes what stands under the key and nothing else. -/
theorem write (h : place.Names c.store e o k) (v : Value) :
    ∃ d, (∃ fault, place.write v c = (.error fault, d)) ∧ c.SameButRules d ∨
      place.write v c = (.ok (), d) ∧ Context.SameButRules { c with store := d.store } d ∧
        ∀ r, c.store.keyed? o = some r →
          ∃ key, e.key? c.store o k = some key ∧ c.store.Written r key v d.store := by
  cases h with
  | member target p hname =>
    simp only [Place.write, writeMember, bind_apply, memberAccessor, onStore]
    cases hset : (c.members.resolve c.store o).1.set c.store o _ v with
    | error fault =>
      refine ⟨{ c with members := (c.members.resolve c.store o).2 }, .inl ⟨?_, rfl⟩⟩
      cases fault <;> exact ⟨_, rfl⟩
    | ok t =>
      refine ⟨{ c with store := t, members := (c.members.resolve c.store o).2 },
        .inr ⟨rfl, rfl, fun r hr => ?_⟩⟩
      exact ⟨_, hname, Store.written_of_setMember hr hset⟩
  | @item a i target p ha hposition =>
    simp only [Place.write, tryStore]
    cases hset : a.set c.store o i v with
    | error fault => exact ⟨c, .inl ⟨⟨_, rfl⟩, .refl c⟩⟩
    | ok t =>
      refine ⟨{ c with store := t }, .inr ⟨rfl, rfl, fun r hr => ?_⟩⟩
      obtain ⟨hi, hwritten⟩ := Store.written_of_setItem hr ha hset
      exact ⟨_, hposition.trans (if_pos hi), hwritten⟩

end Place.Names

/-- However an expression comes to a container, under the key of an entry it reads what is there. -/
theorem Machine.Blind.reads_entry {m : Machine} (h : m.Blind) {e : EntryTarget} {o k v : Value}
    {b c : Context} {r : Ref} {x : Cell} {key : EntryKey} (hparts : e.parts m b = (.ok (o, k), c))
    (hkeyed : c.store.keyed? o = some r) (hx : c.store.cell? r = some x)
    (hkey : e.key? c.store o k = some key) (hv : x.entry? key = some v) :
    ∃ d, c.SameButRules d ∧ e.expr.evaluate m b = m.invoke e.position v d := by
  obtain ⟨d, hd, ⟨place, hplace, hnames⟩ | ⟨-, hnone | hnone⟩⟩ := e.found o k c
  · rw [← hd.store] at hkeyed hx hkey hnames
    obtain ⟨f, hf, hread⟩ := hnames.read hkeyed hx hkey hv
    refine ⟨f, hd.trans hf, ?_⟩
    rw [h.evaluate_entry, bind_of_ok hparts, bind_of_ok hplace, bind_of_ok hread]
  · exact absurd (hnone.symm.trans hkeyed) nofun
  · exact absurd (hnone.symm.trans hkey) nofun

/-! ## Every assignment -/

/-- With a host the operations of which do not read the flag: an assignment to an entry evaluates
the left side and the key as a read does, in the same order and with the same effects and failures.
From the state that they leave, it fails and changes neither what the store holds nor a binding or a
lock, or it succeeds. Then variables are bound to what they were bound to, and if the left side gave
a list, an array, a map or a namespace, one entry of it is the assigned value, which is what every
expression reads from then on that comes to this container and this key. -/
theorem assignment_writes_one_slot {host : Host} (h : host.Blind) (n : Nat) (e : EntryTarget)
    (v : Value) (c : Context) :
    let m := machine host n
    match e.parts m c with
    | (.error fault, d) =>
      e.expr.evaluate m c = (.error fault, d) ∧ e.expr.assign m v c = (.error fault, d)
    | (.outOfFuel, d) =>
      e.expr.evaluate m c = (.outOfFuel, d) ∧ e.expr.assign m v c = (.outOfFuel, d)
    | (.ok (o, k), d) =>
      (e.expr.evaluate m c = (do
        let place ← e.place o k
        let w ← place.read
        m.invoke e.position w) d) ∧
      match e.expr.assign m v c with
      | (.error _, t) => d.SameButRules t
      | (.outOfFuel, _) => False
      | (.ok (), t) =>
        Context.SameButRules { d with store := t.store } t ∧
        ∀ r, d.store.keyed? o = some r →
          ∃ key, e.key? d.store o k = some key ∧ d.store.Written r key v t.store ∧
            ∀ (other : EntryTarget) (l : Value) (a b : Context),
              other.parts m a = (.ok (o, l), b) → b.store.cell? r = t.store.cell? r →
              other.key? b.store o l = some key →
              ∃ b', b.SameButRules b' ∧
                other.expr.evaluate m a = m.invoke other.position v b' := by
  intro m
  have hm : m.Blind := h.machine n
  rcases hparts : e.parts m c with ⟨⟨o, k⟩ | fault | _, d⟩
  case error | outOfFuel =>
    rw [hm.evaluate_entry, hm.assign_entry, bind_apply, bind_apply, hparts]
    exact ⟨rfl, rfl⟩
  case ok =>
    refine ⟨by rw [hm.evaluate_entry, bind_of_ok hparts], ?_⟩
    rw [hm.assign_entry, bind_of_ok hparts]
    obtain ⟨d', hd, ⟨place, hplace, hnames⟩ | ⟨⟨fault, hplace⟩, -⟩⟩ := e.found o k d
    · rw [← hd.store] at hnames
      rw [bind_of_ok hplace]
      obtain ⟨t, ⟨⟨fault, hfault⟩, ht⟩ | ⟨hok, ht, hwritten⟩⟩ := hnames.write v
      · rw [hfault]
        exact hd.trans ht
      · rw [hok]
        rw [hd.store] at hwritten
        refine ⟨by rw [hd] at ht; exact ht, fun r hr => ?_⟩
        obtain ⟨key, hkey, hw⟩ := hwritten r hr
        refine ⟨key, hkey, hw, fun other l a b hother hcell hl => ?_⟩
        obtain ⟨x, y, hx, hy, hform, hy_key, -⟩ := hw.here
        rw [← hcell] at hy
        exact hm.reads_entry hother (Store.keyed?_of_sameForm hr hx hy hform) hy hl hy_key
    · rw [bind_of_error hplace]
      exact hd

/-- The first of two items is written. -/
theorem first_item_is_written :
    let p : Position := ⟨1, 1⟩
    let m := machine Host.applying 1
    let c := (Settings.standard id).newContext
    let e : EntryTarget :=
      .item (.list [.literal (.int 1) p, .literal (.int 2) p] p) (.literal (.int 0) p) p
    Host.applying.Blind ∧ ∃ r d t, e.parts m c = (.ok (.list r, .int 0), d) ∧
      e.expr.assign m (.int 7) c = (.ok (), t) ∧
      d.store.Written r (.position 0) (.int 7) t.store := by
  have hrun (e : EntryTarget) (c d t : Context) (r : Ref)
      (hparts : e.parts (machine Host.applying 1) c = (.ok (.list r, .int 0), d))
      (hassign : e.expr.assign (machine Host.applying 1) (.int 7) c = (.ok (), t))
      (hr : d.store.keyed? (.list r) = some r) :
      ∃ key, e.key? d.store (.list r) (.int 0) = some key ∧
        d.store.Written r key (.int 7) t.store := by
    have h := assignment_writes_one_slot Host.applying_blind 1 e (.int 7) c
    simp only [hparts, hassign] at h
    obtain ⟨-, -, h⟩ := h
    obtain ⟨key, hkey, hwritten, -⟩ := h r hr
    exact ⟨key, hkey, hwritten⟩
  intro p m c e
  have hm : m.Blind := Host.applying_blind.machine 1
  -- nothing is read from the context itself
  clear_value c m
  obtain ⟨r, hsize⟩ : ∃ r, r = c.store.cells.size := ⟨_, rfl⟩
  obtain ⟨d, hd⟩ : ∃ d, d = { c with store := (c.store.newList [.int 1, .int 2]).2 } :=
    ⟨_, rfl⟩
  have hparts : e.parts m c = (.ok (.list r, .int 0), d) := by
    simp only [e, hsize, hd, EntryTarget.parts, Expr.evaluate, Expr.reach, evaluateItems,
      Machine.settle, Value.ofLiteral]
    rfl
  have hcell : d.store.cell? r = some (.items [.int 1, .int 2]) := by
    simp [hsize, hd, Store.newList, Store.cell?_alloc]
  have hassign : ∃ t, e.expr.assign m (.int 7) c = (.ok (), t) := by
    have hset : SequenceAccessor.growable.set d.store (.list r) 0 (.int 7) =
        .ok (d.store.setItem r 0 (.int 7)) := by
      simp only [SequenceAccessor.set, SequenceAccessor.place?, Store.items, hcell]
      rfl
    rw [hm.assign_entry, bind_of_ok hparts]
    simp only [e, EntryTarget.place, Place.ofKey, Value.isAbsent, bind_apply, sequenceAccessor,
      SequenceAccessors.resolve, SequenceAccessor.of?, toInteger_apply, Store.toInteger,
      Bool.false_eq_true, if_false, pure_apply, Place.write, tryStore, hset]
    exact ⟨_, rfl⟩
  obtain ⟨t, ht⟩ := hassign
  obtain ⟨key, hkey, hwritten⟩ := hrun e c d t r hparts ht (by simp only [Store.keyed?, hcell])
  cases hkey
  exact ⟨Host.applying_blind, r, d, t, hparts, ht, hwritten⟩

end TemplateEngine
