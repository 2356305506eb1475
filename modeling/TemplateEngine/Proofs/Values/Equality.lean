import TemplateEngine.Proofs.Values.Parts
import TemplateEngine.Semantics.Operators

/-!
# Equality of values

An integer is compared with a float as the float nearest to it. Different integers can have the same
nearest float, and so this float is equal to both. Such a float, between different integers at the
same place (`Store.Bridges`), is the one reason for which two values can be equal to a third and
differ from each other.

Two values have the same content if what they hold is the same all the way down
(`Store.SameValue`). A comparison does less than that would ask for: it stops at a level that lies
too deep, and two values at the same place in the store are equal to it without a further look. It
is only made of values through which every way is short, and there neither changes the answer, as
long as there is no NaN, which is not equal to itself.

* `equality_is_transitive_but_for_bridges` — values that are equal to the same value are equal,
  unless it bridges them; then they are not.
* `equality_is_structural` — a comparison is refused for values that cannot be walked through, and
  otherwise tells whether two values have the same content. On values without floats it is an
  equivalence.
-/

namespace TemplateEngine

/-! ## Chains of equal values -/

section

variable {s : Store} {a b c : Value} {room : Nat}

/-- Whether, at some place, a float of the second value stands between different integers of the
first and the third. -/
inductive Store.Bridges (s : Store) : Value → Value → Value → Prop
  | here {m n : Int} (x : Float) (h : m ≠ n) : Bridges s (.int m) (.float x) (.int n)
  | inside {a b c x y z : Value} {l : Label} (ha : s.part? a l = some x)
    (hb : s.part? b l = some y) (hc : s.part? c l = some z) (h : Bridges s x y z) :
    Bridges s a b c

/-- What is bridged differs, and it differs from the bridge. -/
theorem Store.Bridges.ne (h : s.Bridges a b c) : a ≠ b ∧ b ≠ c ∧ a ≠ c := by
  induction h with
  | here x h => simp [h]
  | inside ha hb hc _ ih =>
    obtain ⟨hxy, hyz, hxz⟩ := ih
    refine ⟨?_, ?_, ?_⟩
    · rintro rfl
      exact hxy (Option.some.inj (ha.symm.trans hb))
    · rintro rfl
      exact hyz (Option.some.inj (hb.symm.trans hc))
    · rintro rfl
      exact hxz (Option.some.inj (ha.symm.trans hc))

theorem Value.SameAtom.bridges_iff (hab : a.SameAtom b) :
    s.Bridges a b c ↔ ∃ m x n, a = .int m ∧ b = .float x ∧ c = .int n ∧ m ≠ n := by
  constructor
  · intro h
    cases h with
    | @here m n x h => exact ⟨m, x, n, rfl, rfl, rfl, h⟩
    | @inside _ _ _ _ _ _ l ha => rw [hab.part?_eq_none] at ha; cases ha
  · rintro ⟨m, x, n, rfl, rfl, rfl, h⟩
    exact .here x h

/-- Values without parts that are equal to the same value are equal, but for different integers on
both sides of a float. -/
theorem Value.SameAtom.trans_iff (hab : a.SameAtom b) (hbc : b.SameAtom c) :
    a.SameAtom c ↔ ¬s.Bridges a b c := by
  rw [hab.bridges_iff]
  cases hab with
  | intFloat h =>
    cases hbc with
    | float h' => simp [SameAtom.intFloat (BEq.trans h h')]
    | floatInt h' =>
      constructor
      · intro hs
        cases hs with
        | int => simp
        | absent ha => cases ha
      · intro hn
        obtain rfl : _ = _ := by simpa using hn
        exact .int _
    | absent hb => cases hb
  | bool | text | object | record => simpa using hbc
  | int n => simpa using hbc
  | float h =>
    cases hbc with
    | float h' => simp [SameAtom.float (BEq.trans h h')]
    | floatInt h' => simp [SameAtom.floatInt (BEq.trans h' (BEq.symm h))]
    | absent hb => cases hb
  | floatInt h =>
    cases hbc with
    | int => simp [SameAtom.floatInt h]
    | intFloat h' => simp [SameAtom.float (BEq.trans (BEq.symm h) h')]
    | absent hb => cases hb
  | function h =>
    cases hbc with
    | function h' => simp [SameAtom.function (Function.same_trans h h')]
    | absent hb => cases hb
  | absent ha hb =>
    cases hbc with
    | absent _ hc =>
      have hn : ∀ m, a ≠ .int m := by
        rintro m rfl
        cases ha
      simp [SameAtom.absent ha hc, hn]
    | _ => cases hb

namespace Store

theorem equalWithin_trans_iff (hab : s.equalWithin room a b = true)
    (hbc : s.equalWithin room b c = true) :
    s.equalWithin room a c = true ↔ ¬s.Bridges a b c := by
  induction room generalizing a b c with
  | zero => cases hab
  | succ room ih =>
    rcases equalWithin_succ_iff.1 hab with habs | ⟨hkab, hab'⟩
    · -- What equals a value without parts has none either.
      have hbcs : b.SameAtom c := by
        rcases equalWithin_succ_iff.1 hbc with h | ⟨hkbc, -⟩
        · exact h
        · simp [habs.symm.sameKind_eq_false c] at hkbc
      rw [equalWithin_atoms_iff (habs.sameKind_eq_false c)]
      exact habs.trans_iff hbcs
    · rcases equalWithin_succ_iff.1 hbc with h | ⟨hkbc, hbc'⟩
      · rw [Value.sameKind_comm, h.sameKind_eq_false a] at hkab
        cases hkab
      rw [equalWithin_containers_iff (Value.sameKind_trans hkab hkbc)]
      -- Two values at the same place in the store are equal without a look at their parts.
      rcases hab' with rfl | ⟨hdab, hpab⟩
      · have hn : ¬s.Bridges a a c := fun h => h.ne.1 rfl
        simp only [hn, not_false_iff, iff_true]
        exact hbc'
      rcases hbc' with rfl | ⟨hdbc, hpbc⟩
      · have hn : ¬s.Bridges a b b := fun h => h.ne.2.1 rfl
        simp only [hn, not_false_iff, iff_true]
        exact .inr ⟨hdab, hpab⟩
      have hparts : ∀ l x z, s.part? a l = some x → s.part? c l = some z →
          ∃ y, s.part? b l = some y ∧ (s.equalWithin room x z = true ↔ ¬s.Bridges x y z) := by
        intro l x z hx hz
        obtain ⟨y, hy⟩ := Option.isSome_iff_exists.1 ((hdab l).symm.trans (by simp [hx]))
        exact ⟨y, hy, ih (hpab l x y hx hy) (hpbc l y z hy hz)⟩
      constructor
      · rintro (rfl | ⟨-, hac⟩) hbridges
        · exact hbridges.ne.2.2 rfl
        · cases hbridges with
          | here => cases hkab
          | inside ha hb hc h =>
            obtain ⟨y, hy, hiff⟩ := hparts _ _ _ ha hc
            cases hb.symm.trans hy
            exact hiff.1 (hac _ _ _ ha hc) h
      · intro hn
        refine .inr ⟨fun l => (hdab l).trans (hdbc l), fun l x z hx hz => ?_⟩
        obtain ⟨y, hy, hiff⟩ := hparts l x z hx hz
        exact hiff.2 fun h => hn (.inside hx hy hz h)

/-! ## The operator -/

theorem equals_eq_ok_iff {r : Bool} :
    s.equals a b = .ok r ↔
      s.nestingFault? a = none ∧ s.nestingFault? b = none ∧ s.equal a b = r := by
  cases ha : s.nestingFault? a <;> cases hb : s.nestingFault? b <;>
    simp [equals, comparable, ha, hb, bind, Except.bind, pure, Except.pure]

/-- Values that are equal to the same value are equal, but not if that value has a float where they
have different integers. -/
theorem equality_is_transitive_but_for_bridges (hab : s.equals a b = .ok true)
    (hbc : s.equals b c = .ok true) :
    (¬s.Bridges a b c → s.equals a c = .ok true) ∧
      (s.Bridges a b c → s.equals a c = .ok false) := by
  obtain ⟨ha, -, hab⟩ := equals_eq_ok_iff.1 hab
  obtain ⟨-, hc, hbc⟩ := equals_eq_ok_iff.1 hbc
  have hiff : s.equal a c = true ↔ ¬s.Bridges a b c := equalWithin_trans_iff hab hbc
  refine ⟨fun hn => equals_eq_ok_iff.2 ⟨ha, hc, hiff.2 hn⟩, fun h => ?_⟩
  exact equals_eq_ok_iff.2 ⟨ha, hc, Bool.eq_false_iff.2 fun he => hiff.1 he h⟩

/-- Three lists: `2 ^ 53 + 1`, the float `2 ^ 53`, and the integer `2 ^ 53`. -/
def nearby : Store :=
  ⟨#[.items [.int 9007199254740993], .items [.float 9007199254740992.0],
    .items [.int 9007199254740992]], 0⟩

/-- A float that is nearest to two integers is equal to both, in lists as well, and they are not
equal to each other. Nothing comes between an integer and itself. -/
theorem nearby_integers_are_bridged :
    nearby.equals (.list 0) (.list 1) = .ok true ∧ nearby.equals (.list 1) (.list 2) = .ok true ∧
      nearby.equals (.list 0) (.list 2) = .ok false ∧
      nearby.equals (.int 9007199254740993) (.int 9007199254740993) = .ok true := by
  have hab : nearby.equals (.list 0) (.list 1) = .ok true :=
    equals_eq_ok_iff.2 ⟨rfl, rfl, by decide +kernel⟩
  have hbc : nearby.equals (.list 1) (.list 2) = .ok true :=
    equals_eq_ok_iff.2 ⟨rfl, rfl, by decide +kernel⟩
  have hbridges : nearby.Bridges (.list 0) (.list 1) (.list 2) :=
    .inside (l := .position 0) rfl rfl rfl (.here _ (by decide))
  have hint : nearby.equals (.int 9007199254740993) (.float 9007199254740992.0) = .ok true :=
    equals_eq_ok_iff.2 ⟨rfl, rfl, by decide +kernel⟩
  have hfloat : nearby.equals (.float 9007199254740992.0) (.int 9007199254740993) = .ok true :=
    equals_eq_ok_iff.2 ⟨rfl, rfl, by decide +kernel⟩
  exact ⟨hab, hbc, (equality_is_transitive_but_for_bridges hab hbc).2 hbridges,
    (equality_is_transitive_but_for_bridges hint hfloat).1 fun h => h.ne.2.2 rfl⟩

/-- Equality is not transitive. -/
theorem equality_is_not_transitive :
    ¬∀ (s : Store) (a b c : Value), s.equals a b = .ok true → s.equals b c = .ok true →
      s.equals a c = .ok true := by
  intro h
  have hac := h .empty (.int 9007199254740993) (.float 9007199254740992.0) (.int 9007199254740992)
    (equals_eq_ok_iff.2 ⟨rfl, rfl, by decide +kernel⟩)
    (equals_eq_ok_iff.2 ⟨rfl, rfl, by decide +kernel⟩)
  simp [equals_eq_ok_iff, equal, equalWithin] at hac

end Store

end

variable {s : Store} {a b c v w : Value} {n room : Nat}

/-! ## Contents -/

namespace Store

/-- Whether the second value is the first or lies somewhere inside of it. -/
inductive Holds (s : Store) : Value → Value → Prop
  | self (v : Value) : Holds s v v
  | inside {v w u : Value} {l : Label} (hw : s.part? v l = some w) (h : Holds s w u) : Holds s v u

/-- Whether no NaN lies in a value. -/
def NanFree (s : Store) (v : Value) : Prop := ∀ x, s.Holds v (.float x) → x.isNaN = false

/-- Whether no float lies in a value. -/
def FloatFree (s : Store) (v : Value) : Prop := ∀ x, ¬s.Holds v (.float x)

/-- Whether two values have the same content: they have no parts and are equal, or they are
containers of one kind and have the same contents under the same positions or keys. -/
inductive SameValue (s : Store) : Value → Value → Prop
  | atoms {a b : Value} (h : a.SameAtom b) : SameValue s a b
  | parts {a b : Value} (hk : a.sameKind b = true)
    (hl : ∀ l, (s.part? a l).isSome = (s.part? b l).isSome)
    (h : ∀ l x y, s.part? a l = some x → s.part? b l = some y → SameValue s x y) : SameValue s a b

theorem NanFree.part (h : s.NanFree v) {l : Label} (hw : s.part? v l = some w) : s.NanFree w :=
  fun x hx => h x (.inside hw hx)

theorem FloatFree.nanFree (h : s.FloatFree v) : s.NanFree v := fun x hx => absurd hx (h x)

/-- A float that stands between integers lies in the value in the middle. -/
theorem Bridges.exists_holds (h : s.Bridges a b c) : ∃ x, s.Holds b (.float x) := by
  induction h with
  | here x => exact ⟨x, .self _⟩
  | inside _ hb _ _ ih =>
    obtain ⟨x, hx⟩ := ih
    exact ⟨x, .inside hb hx⟩

theorem Shallow.part (hv : s.Shallow n v) {l : Label} (hw : s.part? v l = some w) :
    ∃ m, n = m + 1 ∧ ∀ l w, s.part? v l = some w → s.Shallow m w := by
  obtain ⟨r, parts, hc, -⟩ := mem_of_part? hw
  obtain ⟨m, rfl, hm⟩ := hv.inside hc
  refine ⟨m, rfl, fun l w hw => ?_⟩
  obtain ⟨r', parts', hc', hmem⟩ := mem_of_part? hw
  cases hc.symm.trans hc'
  exact hm w hmem

/-- A value without NaN has the same content as itself, if every way into it is short. -/
theorem SameValue.refl (hv : s.Shallow n v) (hn : s.NanFree v) : s.SameValue v v := by
  induction n using Nat.strong_induction_on generalizing v with
  | h n ih =>
    cases hk : v.sameKind v with
    | false => exact .atoms (Value.sameAtom_self hk fun x hx => hn x (hx ▸ .self _))
    | true =>
      refine .parts hk (fun _ => rfl) fun l x y hx hy => ?_
      obtain ⟨m, rfl, hm⟩ := hv.part hx
      cases hx.symm.trans hy
      exact ih m (Nat.lt_succ_self m) (hm l x hx) (hn.part hx)

theorem SameValue.symm (h : s.SameValue a b) : s.SameValue b a := by
  induction h with
  | atoms h => exact .atoms h.symm
  | parts hk hl _ ih =>
    exact .parts (by rwa [Value.sameKind_comm]) (fun l => (hl l).symm)
      fun l x y hx hy => ih l y x hy hx

/-! ## What a comparison tells -/

/-- What is equal within some levels has the same content, also where the comparison took two
values at the same place for equal. -/
theorem sameValue_of_equalWithin (ha : s.Shallow n a) (hn : s.NanFree a)
    (h : s.equalWithin room a b = true) : s.SameValue a b := by
  induction room generalizing a b n with
  | zero => cases h
  | succ room ih =>
    rcases equalWithin_succ_iff.1 h with h | ⟨hk, rfl | ⟨hl, hp⟩⟩
    · exact .atoms h
    · exact .refl ha hn
    · refine .parts hk hl fun l x y hx hy => ?_
      obtain ⟨m, -, hm⟩ := ha.part hx
      exact ih (hm l x hx) (hn.part hx) (hp l x y hx hy)

/-- What has the same content is equal within one level more than there are containers on a way. -/
theorem SameValue.equalWithin (h : s.SameValue a b) (ha : s.Shallow n a) :
    s.equalWithin (n + 1) a b = true := by
  induction h generalizing n with
  | atoms h => exact equalWithin_succ_iff.2 (.inl h)
  | parts hk hl _ ih =>
    refine equalWithin_succ_iff.2 (.inr ⟨hk, .inr ⟨hl, fun l x y hx hy => ?_⟩⟩)
    obtain ⟨m, rfl, hm⟩ := ha.part hx
    exact ih l x y hx hy (hm l x hx)

theorem equal_iff_sameValue (ha : ¬s.Tangled a) (hn : s.NanFree a) :
    s.equal a b = true ↔ s.SameValue a b :=
  ⟨sameValue_of_equalWithin (shallow_of_not_tangled ha) hn,
    fun h => h.equalWithin (shallow_of_not_tangled ha)⟩

/-- Among values without floats that can be walked through, being equal is an equivalence. -/
theorem equal_equivalence (s : Store) :
    Equivalence fun x y : {v : Value // s.FloatFree v ∧ ¬s.Tangled v} => s.equal x y = true where
  refl x := by
    rw [equal_iff_sameValue x.2.2 x.2.1.nanFree]
    exact .refl (shallow_of_not_tangled x.2.2) x.2.1.nanFree
  symm {x y} hxy := by
    rw [equal_iff_sameValue x.2.2 x.2.1.nanFree] at hxy
    rw [equal_iff_sameValue y.2.2 y.2.1.nanFree]
    exact hxy.symm
  trans {x y z} hxy hyz := by
    refine (equalWithin_trans_iff hxy hyz).2 fun h => ?_
    obtain ⟨f, hf⟩ := h.exists_holds
    exact y.2.1 f hf

/-! ## The operators -/

theorem equals_of_tangled (h : s.Tangled a ∨ s.Tangled b) :
    ∃ kind fault, s.equals a b = .error (.type (.nested kind fault)) := by
  rw [← nestingFault?_isSome_iff, ← nestingFault?_isSome_iff] at h
  cases ha : s.nestingFault? a with
  | some fault => exact ⟨s.typeName a, fault, by simp [equals, comparable, ha, bind, Except.bind]⟩
  | none =>
    obtain ⟨fault, hb⟩ := Option.isSome_iff_exists.1 (h.resolve_left (by simp [ha]))
    exact ⟨s.typeName b, fault, by simp [equals, comparable, ha, hb, bind, Except.bind]⟩

theorem equals_of_not_tangled (ha : ¬s.Tangled a) (hb : ¬s.Tangled b) :
    s.equals a b = .ok (s.equal a b) := by
  rw [← nestingFault?_isSome_iff, Option.not_isSome_iff_eq_none] at ha hb
  exact equals_eq_ok_iff.2 ⟨ha, hb, rfl⟩

theorem binary_eq (s : Store) (a b : Value) :
    s.binary .eq a b = (s.equals a b).map fun same => (.bool same, s) := by
  simp only [binary]
  cases s.equals a b <;> rfl

theorem binary_ne (s : Store) (a b : Value) :
    s.binary .ne a b = (s.equals a b).map fun same => (.bool !same, s) := by
  simp only [binary]
  cases s.equals a b <;> rfl

theorem equals_refused_iff :
    (∃ kind fault, s.equals a b = .error (.type (.nested kind fault))) ↔
      s.Tangled a ∨ s.Tangled b := by
  refine ⟨?_, equals_of_tangled⟩
  rintro ⟨kind, fault, h⟩
  by_contra hn
  rw [not_or] at hn
  rw [equals_of_not_tangled hn.1 hn.2] at h
  cases h

/-- Comparing values of which the first has no NaN is refused exactly if some way into one of them
comes twice to the same container or to more than 64. Otherwise `==` tells whether they have the
same content, and `!=` tells the opposite. Among values without floats that can be compared, being
equal is an equivalence. -/
theorem equality_is_structural (hn : s.NanFree a) :
    ((∃ kind fault, s.binary .eq a b = .error (.type (.nested kind fault))) ↔
      s.Tangled a ∨ s.Tangled b) ∧
    ((∃ kind fault, s.binary .ne a b = .error (.type (.nested kind fault))) ↔
      s.Tangled a ∨ s.Tangled b) ∧
    (¬s.Tangled a → ¬s.Tangled b → ∃ same : Bool, (same = true ↔ s.SameValue a b) ∧
      s.binary .eq a b = .ok (.bool same, s) ∧ s.binary .ne a b = .ok (.bool !same, s)) ∧
    Equivalence fun x y : {v : Value // s.FloatFree v ∧ ¬s.Tangled v} =>
      s.binary .eq x y = .ok (.bool true, s) := by
  have herror {f : Bool → Value × Store} {e : ScriptFault} :
      (s.equals a b).map f = .error e ↔ s.equals a b = .error e := by
    cases s.equals a b <;> simp [Except.map]
  have hequals (x y : {v : Value // s.FloatFree v ∧ ¬s.Tangled v}) :
      (s.equals x y).map (fun same => (Value.bool same, s)) = .ok (.bool true, s) ↔
        s.equal x y = true := by
    simp [equals_of_not_tangled x.2.2 y.2.2, Except.map]
  simp only [binary_eq, binary_ne, herror, equals_refused_iff, hequals, true_and]
  refine ⟨fun ha hb => ⟨s.equal a b, equal_iff_sameValue ha hn, ?_, ?_⟩, equal_equivalence s⟩
  · rw [equals_of_not_tangled ha hb]
    rfl
  · rw [equals_of_not_tangled ha hb]
    rfl

/-- Two lists: the float one, and the integer one. -/
def ones : Store := ⟨#[.items [.float 1.0], .items [.int 1]], 0⟩

/-- A list of the float one and a list of the integer one have the same content. -/
theorem ones_are_same :
    ones.NanFree (.list 0) ∧ ones.SameValue (.list 0) (.list 1) ∧
      ones.binary .ne (.list 0) (.list 1) = .ok (.bool false, ones) := by
  have hn : ones.NanFree (.list 0) := by
    have hparts (l w) (hw : ones.part? (.list 0) l = some w) : w = .float 1.0 := by
      rcases l with i | k
      · simpa using List.mem_of_getElem? (l := [Value.float 1.0]) hw
      · cases hw
    rintro x (_ | ⟨hw, h⟩)
    cases hparts _ _ hw
    rcases h with _ | ⟨hw, -⟩
    · decide +kernel
    · cases hw
  have ha : ¬ones.Tangled (.list 0) := by
    rw [← nestingFault?_isSome_iff]
    exact Bool.false_ne_true
  have hb : ¬ones.Tangled (.list 1) := by
    rw [← nestingFault?_isSome_iff]
    exact Bool.false_ne_true
  obtain ⟨same, hsame, heq, hne⟩ := (equality_is_structural (b := .list 1) hn).2.2.1 ha hb
  have htrue : ones.binary .eq (.list 0) (.list 1) = .ok (.bool true, ones) := by
    rw [binary_eq, equals_of_not_tangled ha hb, show ones.equal _ _ = true by decide +kernel]
    rfl
  cases heq.symm.trans htrue
  exact ⟨hn, hsame.1 rfl, hne⟩

end Store

end TemplateEngine
