import Mathlib
import TemplateEngine.Heap.Equality
import TemplateEngine.Proofs.Evaluation.Carried
import TemplateEngine.Proofs.Loops.Items
import TemplateEngine.Proofs.Values.Nesting

/-!
# Comparing part by part

A list or an array has its parts under their positions, and a map has them under its keys
(`Store.part?`). Two containers of one kind are compared by going through their parts in order. As
maps are sorted, this compares what is under the same position or key on both sides, and fails if
one side has a part where the other has none (`equalWithin_succ_iff`).
-/

namespace TemplateEngine

/-! ## Dictionaries -/

namespace Dictionary

variable {α : Type} {d e : Dictionary α}

theorem nodup_keys (d : Dictionary α) : d.keys.Nodup := d.sorted.imp fun h => ne_of_lt h

theorem get?_eq_some_iff {k : String} {x : α} : d.get? k = some x ↔ (k, x) ∈ d.entries := by
  refine ⟨mem_of_lookupEntry, fun h => ?_⟩
  have hk : d.contains k = true := (d.mem_keys_iff k).1 (List.mem_map_of_mem h)
  obtain ⟨y, hy⟩ := Option.isSome_iff_exists.1 hk
  have hxy := List.inj_on_of_nodup_map d.nodup_keys h (mem_of_lookupEntry hy) rfl
  cases hxy
  exact hy

/-- Dictionaries with the same keys have them in the same order. -/
theorem keys_eq_iff : d.keys = e.keys ↔ ∀ k, d.contains k = e.contains k := by
  constructor
  · intro h k
    rw [Bool.eq_iff_iff, ← mem_keys_iff, ← mem_keys_iff, h]
  · intro h
    refine List.Pairwise.eq_of_mem_iff d.sorted e.sorted fun k => ?_
    have hk := Bool.eq_iff_iff.1 (h k)
    rwa [← mem_keys_iff, ← mem_keys_iff] at hk

end Dictionary

/-! ## Parts -/

/-- What a part is found under in its container. -/
inductive Label
  | position (i : Nat)
  | key (k : String)

/-- The item of a list under a label. -/
def itemAt (xs : List Value) : Label → Option Value
  | .position i => xs[i]?
  | .key _ => none

/-- The value of a dictionary under a label. -/
def entryAt (d : Dictionary Value) : Label → Option Value
  | .position _ => none
  | .key k => d.get? k

/-- The part of a value under a label. -/
def Store.part? (s : Store) : Value → Label → Option Value
  | .list r | .array r => itemAt (s.items r)
  | .map r => entryAt (s.entries r)
  | _ => fun _ => none

/-- Two values have parts under the same labels, and those under the same label are related. -/
def Partwise (R : Value → Value → Prop) (f g : Label → Option Value) : Prop :=
  (∀ l, (f l).isSome = (g l).isSome) ∧ ∀ l x y, f l = some x → g l = some y → R x y

theorem pairwiseEqual_iff {α : Type} {eq : α → α → Bool} {xs ys : List α} :
    pairwiseEqual eq xs ys = true ↔
      xs.length = ys.length ∧
        ∀ (i : Nat) x y, xs[i]? = some x → ys[i]? = some y → eq x y = true := by
  simp only [pairwiseEqual, Bool.and_eq_true, decide_eq_true_eq, List.all_eq_true,
    List.mem_iff_getElem?, List.getElem?_zip_eq_some, Prod.forall]
  refine and_congr_right fun _ => ⟨fun h i x y hx hy => h x y ⟨i, hx, hy⟩, ?_⟩
  rintro h x y ⟨i, hx, hy⟩
  exact h i x y hx hy

theorem pairwiseEqual_items_iff {eq : Value → Value → Bool} {xs ys : List Value} :
    pairwiseEqual eq xs ys = true ↔
      Partwise (fun x y => eq x y = true) (itemAt xs) (itemAt ys) := by
  rw [pairwiseEqual_iff]
  refine and_congr ⟨?_, fun h => ?_⟩ ⟨?_, fun h i => h (.position i)⟩
  · rintro hlen (i | k)
    · rw [Bool.eq_iff_iff]
      simp [itemAt, hlen]
    · rfl
  · have hle {xs ys : List Value} (h : ∀ l, (itemAt xs l).isSome = (itemAt ys l).isSome) :
        xs.length ≤ ys.length := by
      by_contra hlt
      simpa [itemAt, Nat.lt_of_not_le hlt] using h (.position ys.length)
    exact Nat.le_antisymm (hle h) (hle fun l => (h l).symm)
  · rintro h (i | k) x y hx hy
    · exact h i x y hx hy
    · cases hx

/-- Going through the entries in order compares what two dictionaries have under the same key. -/
theorem pairwiseEqual_entries_iff {eq : Value → Value → Bool} {d e : Dictionary Value} :
    pairwiseEqual (fun x y => x.1 = y.1 && eq x.2 y.2) d.entries e.entries = true ↔
      Partwise (fun x y => eq x y = true) (entryAt d) (entryAt e) := by
  simp only [pairwiseEqual_iff, Bool.and_eq_true, decide_eq_true_eq]
  constructor
  · rintro ⟨hlen, h⟩
    -- The keys are compared at each position, so both sides have the same list of keys.
    have hkeys : d.keys = e.keys := by
      refine List.ext_getElem (by simpa [Dictionary.keys] using hlen) fun i hi hj => ?_
      simp only [Dictionary.keys, List.length_map] at hi hj
      simpa [Dictionary.keys] using
        (h i _ _ (List.getElem?_eq_getElem hi) (List.getElem?_eq_getElem hj)).1
    constructor
    · rintro (i | k)
      · rfl
      · exact Dictionary.keys_eq_iff.1 hkeys k
    · rintro (i | k) x y hx hy
      · cases hx
      · obtain ⟨i, hi⟩ := List.mem_iff_getElem?.1 (Dictionary.get?_eq_some_iff.1 hx)
        obtain ⟨j, hj⟩ := List.mem_iff_getElem?.1 (Dictionary.get?_eq_some_iff.1 hy)
        have hi' : d.keys[i]? = some k := by simp [Dictionary.keys, hi]
        have hj' : d.keys[j]? = some k := by rw [hkeys]; simp [Dictionary.keys, hj]
        obtain ⟨hlt, -⟩ := List.getElem?_eq_some_iff.1 hi'
        obtain rfl : i = j := (List.getElem?_inj hlt d.nodup_keys).1 (hi'.trans hj'.symm)
        exact (h i _ _ hi hj).2
  · rintro ⟨hdom, h⟩
    -- The same keys stand at the same positions, as both sides are sorted.
    have hkeys : d.keys = e.keys := Dictionary.keys_eq_iff.2 fun k => hdom (.key k)
    refine ⟨by simpa [Dictionary.keys] using congrArg List.length hkeys, fun i p q hp hq => ?_⟩
    have hk : p.1 = q.1 := by
      have hi := congrArg (fun ks => ks[i]?) hkeys
      simpa [Dictionary.keys, hp, hq] using hi
    refine ⟨hk, h (.key p.1) _ _ (Dictionary.get?_eq_some_iff.2 (List.mem_of_getElem? hp)) ?_⟩
    exact Dictionary.get?_eq_some_iff.2 (hk ▸ List.mem_of_getElem? hq)

theorem Store.mem_of_part? {s : Store} {v w : Value} {l : Label} (h : s.part? v l = some w) :
    ∃ r parts, s.container? v = some (r, parts) ∧ w ∈ parts := by
  cases v with
  | list r | array r =>
    cases l with
    | position i => exact ⟨r, _, rfl, List.mem_of_getElem? h⟩
    | key k => cases h
  | map r =>
    cases l with
    | position i => cases h
    | key k => exact ⟨r, _, rfl, List.mem_map_of_mem (Dictionary.get?_eq_some_iff.1 h)⟩
  | _ => cases h

/-! ## Values without parts -/

namespace Function

variable {f g h : Function}

theorem same_self (f : Function) : f.same f = true := by
  cases f <;> simp [same]

theorem same_symm (hfg : f.same g = true) : g.same f = true := by
  cases f <;> cases g <;> simp_all [same]

theorem same_trans (hfg : f.same g = true) (hgh : g.same h = true) : f.same h = true := by
  cases f <;> cases g <;> cases h <;> simp_all [same]

end Function

/-- Whether two values that are no containers are equal. -/
inductive Value.SameAtom : Value → Value → Prop
  | bool (b : Bool) : SameAtom (.bool b) (.bool b)
  | int (n : Int) : SameAtom (.int n) (.int n)
  | float {x y : Float} (h : (x == y) = true) : SameAtom (.float x) (.float y)
  | intFloat {n : Int} {x : Float} (h : (Float.ofInt n == x) = true) : SameAtom (.int n) (.float x)
  | floatInt {n : Int} {x : Float} (h : (Float.ofInt n == x) = true) : SameAtom (.float x) (.int n)
  | text (t : String) : SameAtom (.text t) (.text t)
  | object (r : Ref) : SameAtom (.object r) (.object r)
  | record (r : Ref) : SameAtom (.record r) (.record r)
  | function {f g : Function} (h : f.same g = true) : SameAtom (.function f) (.function g)
  | absent {a b : Value} (ha : a.isAbsent = true) (hb : b.isAbsent = true) : SameAtom a b

/-- Whether two values are containers of one kind. -/
def Value.sameKind : Value → Value → Bool
  | .list _, .list _ | .array _, .array _ | .map _, .map _ => true
  | _, _ => false

namespace Value

variable {a b c : Value}

theorem SameAtom.sameKind_eq_false (h : a.SameAtom b) (c : Value) : a.sameKind c = false := by
  cases h with
  | absent ha => cases a <;> cases ha <;> rfl
  | _ => rfl

theorem SameAtom.part?_eq_none {s : Store} {l : Label} (h : a.SameAtom b) : s.part? a l = none := by
  cases h with
  | absent ha => cases a <;> cases ha <;> rfl
  | _ => rfl

theorem sameAtom_self (h : a.sameKind a = false) (hn : ∀ x, a = .float x → x.isNaN = false) :
    a.SameAtom a := by
  cases a with
  | list | array | map => cases h
  | float x => exact .float (Float.beq_self_iff.2 (by simpa using hn x rfl))
  | function f => exact .function f.same_self
  | undefined | null => exact .absent rfl rfl
  | _ => constructor

theorem SameAtom.symm (h : a.SameAtom b) : b.SameAtom a := by
  cases h with
  | absent ha hb => exact .absent hb ha
  | float h => exact .float (BEq.symm h)
  | intFloat h => exact .floatInt h
  | floatInt h => exact .intFloat h
  | function h => exact .function (Function.same_symm h)
  | _ => constructor

theorem sameKind_comm (a b : Value) : a.sameKind b = b.sameKind a := by
  cases a <;> cases b <;> rfl

theorem sameKind_trans (hab : a.sameKind b = true) (hbc : b.sameKind c = true) :
    a.sameKind c = true := by
  cases a <;> cases b <;> cases hab <;> cases c <;> first | rfl | cases hbc

end Value

/-! ## One step of a comparison -/

namespace Store

variable {s : Store} {a b : Value} {room : Nat}

theorem equalWithin_atoms_iff (h : a.sameKind b = false) :
    s.equalWithin (room + 1) a b = true ↔ a.SameAtom b := by
  constructor
  · intro he
    cases a <;> cases b <;> simp only [equalWithin, reduceCtorEq, decide_eq_true_eq] at he
    case undefined.undefined | undefined.null | null.undefined | null.null => exact .absent rfl rfl
    case float.float => exact .float he
    case int.float => exact .intFloat he
    case float.int => exact .floatInt he
    case function.function => exact .function he
    case list.list | array.array | map.map => cases h
    all_goals
      subst he
      constructor
  · intro hs
    cases hs with
    | absent ha hb => cases a <;> cases ha <;> cases b <;> cases hb <;> simp [equalWithin]
    | _ => simp_all [equalWithin]

theorem equalWithin_containers_iff (h : a.sameKind b = true) :
    s.equalWithin (room + 1) a b = true ↔
      a = b ∨ Partwise (fun x y => s.equalWithin room x y = true) (s.part? a) (s.part? b) := by
  cases a <;> cases b <;> simp only [Value.sameKind, reduceCtorEq] at h
  case list.list | array.array =>
    simp [equalWithin, part?, pairwiseEqual_items_iff]
  case map.map =>
    simp only [equalWithin, part?, Bool.or_eq_true, decide_eq_true_eq, pairwiseEqual_entries_iff,
      Value.map.injEq]

/-- Two values are equal within some levels if they have no parts and are equal, or if they are the
same container or containers of one kind with equal parts under the same labels. -/
theorem equalWithin_succ_iff :
    s.equalWithin (room + 1) a b = true ↔
      a.SameAtom b ∨
        (a.sameKind b = true ∧
          (a = b ∨
            Partwise (fun x y => s.equalWithin room x y = true) (s.part? a) (s.part? b))) := by
  cases h : a.sameKind b with
  | false => simp [equalWithin_atoms_iff h]
  | true =>
    have hn : ¬a.SameAtom b := fun hs => by simp [hs.sameKind_eq_false b] at h
    simp [equalWithin_containers_iff h, hn]

end Store

end TemplateEngine
