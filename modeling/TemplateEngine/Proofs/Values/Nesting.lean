import TemplateEngine.Heap.Nesting

/-!
# Ways through containers

A way into a value comes from each container to one that lies in it (`Store.Passes`). Containers
that hold each other have ways of any length, and a way may come to a place again. The walk that
looks for faults follows all ways at once, and it finds one exactly if some way comes twice to the
same place or to more places than there is room for (`nestingFault?_isSome_iff`).
-/

namespace TemplateEngine

namespace Store

variable {s : Store} {v w : Value} {r : Ref} {parts : List Value} {path rs : List Ref}
  {room n : Nat}

/-! ## Ways -/

theorem container?_cases (h : s.container? v = some (r, parts)) :
    ((v = .list r ∨ v = .array r) ∧ parts = s.items r) ∨
      (v = .map r ∧ parts = (s.entries r).values) := by
  cases v with
  | list | array | map =>
    cases h
    simp
  | _ => simp [container?] at h

/-- Whether a way into a value comes through these places, in this order. -/
inductive Passes (s : Store) : Value → List Ref → Prop
  | last {v : Value} {r : Ref} {parts : List Value} (h : s.container? v = some (r, parts)) :
    Passes s v [r]
  | through {v w : Value} {r : Ref} {parts : List Value} {rs : List Ref}
    (h : s.container? v = some (r, parts)) (hw : w ∈ parts) (hr : Passes s w rs) :
    Passes s v (r :: rs)

/-- Whether a way into a value comes twice to the same container or to more than 64 of them. -/
def Tangled (s : Store) (v : Value) : Prop := ∃ rs, s.Passes v rs ∧ (¬rs.Nodup ∨ 64 < rs.length)

/-- Whether no way into a value comes to more than `n` containers. -/
def Shallow (s : Store) (n : Nat) (v : Value) : Prop := ∀ rs, s.Passes v rs → rs.length ≤ n

theorem not_passes_of_none (h : s.container? v = none) : ¬s.Passes v rs := by
  rintro (⟨hc⟩ | ⟨hc, -, -⟩) <;> simp [h] at hc

theorem shallow_of_not_tangled (h : ¬s.Tangled v) : s.Shallow 64 v := by
  intro rs hrs
  refine Nat.le_of_not_lt fun hlt => ?_
  exact h ⟨rs, hrs, .inr hlt⟩

/-- A container that is not too deep has room for its parts. -/
theorem Shallow.inside (hv : s.Shallow n v) (h : s.container? v = some (r, parts)) :
    ∃ m, n = m + 1 ∧ ∀ w ∈ parts, s.Shallow m w := by
  cases n with
  | zero => exact absurd (hv _ (.last h)) (by simp)
  | succ m =>
    refine ⟨m, rfl, fun w hw rs hrs => ?_⟩
    simpa using hv _ (.through h hw hrs)

/-! ## The walk -/

/-- Whether a way that goes on from the places of `path` comes back to one of them, comes twice to
the same place, or is too long for the room that is left. -/
def Strays (path : List Ref) (room : Nat) (rs : List Ref) : Prop :=
  (∃ r ∈ rs, r ∈ path) ∨ ¬rs.Nodup ∨ room < rs.length

theorem faultWithin_of_none (h : s.container? v = none) : s.faultWithin room path v = none := by
  unfold faultWithin
  simp [h]

theorem faultWithin_of_mem (h : s.container? v = some (r, parts)) (hr : r ∈ path) :
    s.faultWithin room path v = some .cyclic := by
  unfold faultWithin
  simp [h, hr]

theorem faultWithin_zero (h : s.container? v = some (r, parts)) (hr : r ∉ path) :
    s.faultWithin 0 path v = some .deep := by
  unfold faultWithin
  simp [h, hr]

theorem faultWithin_succ (h : s.container? v = some (r, parts)) (hr : r ∉ path) :
    s.faultWithin (room + 1) path v = parts.findSome? (s.faultWithin room (r :: path)) := by
  rw [faultWithin]
  simp [h, hr]

theorem strays_singleton_iff : Strays path room [r] ↔ r ∈ path ∨ room = 0 := by
  simp [Strays]

/-- A way through a new place strays as its rest does, which has one more place to come back to and
one place less of room. -/
theorem strays_cons_iff (hr : r ∉ path) :
    Strays path (room + 1) (r :: rs) ↔ Strays (r :: path) room rs := by
  simp only [Strays, List.mem_cons, List.nodup_cons, List.length_cons]
  constructor
  · rintro (⟨q, rfl | hq, hp⟩ | hd | hl)
    · exact absurd hp hr
    · exact .inl ⟨q, hq, .inr hp⟩
    · by_cases hm : r ∈ rs
      · exact .inl ⟨r, hm, .inl rfl⟩
      · exact .inr (.inl fun h => hd ⟨hm, h⟩)
    · exact .inr (.inr (by omega))
  · rintro (⟨q, hq, rfl | hp⟩ | hd | hl)
    · exact .inr (.inl fun h => h.1 hq)
    · exact .inl ⟨q, .inr hq, hp⟩
    · exact .inr (.inl fun h => hd h.2)
    · exact .inr (.inr (by omega))

/-- The walk finds a fault exactly if some way strays. -/
theorem faultWithin_isSome_iff :
    (s.faultWithin room path v).isSome ↔ ∃ rs, s.Passes v rs ∧ Strays path room rs := by
  induction room generalizing path v with
  | zero =>
    cases h : s.container? v with
    | none => simp [faultWithin_of_none h, not_passes_of_none h]
    | some c =>
      obtain ⟨r, parts⟩ := c
      have hstrays : ∃ rs, s.Passes v rs ∧ Strays path 0 rs :=
        ⟨[r], .last h, strays_singleton_iff.2 (.inr rfl)⟩
      by_cases hr : r ∈ path
      · simp [faultWithin_of_mem h hr, hstrays]
      · simp [faultWithin_zero h hr, hstrays]
  | succ room ih =>
    cases h : s.container? v with
    | none => simp [faultWithin_of_none h, not_passes_of_none h]
    | some c =>
      obtain ⟨r, parts⟩ := c
      by_cases hr : r ∈ path
      · have hstrays : ∃ rs, s.Passes v rs ∧ Strays path (room + 1) rs :=
          ⟨[r], .last h, strays_singleton_iff.2 (.inl hr)⟩
        simp [faultWithin_of_mem h hr, hstrays]
      · simp only [faultWithin_succ h hr, List.findSome?_isSome_iff, ih]
        constructor
        · rintro ⟨w, hw, rs, hrs, hs⟩
          exact ⟨r :: rs, .through h hw hrs, (strays_cons_iff hr).2 hs⟩
        · rintro ⟨_, hrs, hs⟩
          cases hrs with
          | last hc =>
            cases h.symm.trans hc
            simp [strays_singleton_iff, hr] at hs
          | through hc hw hrs =>
            cases h.symm.trans hc
            exact ⟨_, hw, _, hrs, (strays_cons_iff hr).1 hs⟩

theorem nestingFault?_isSome_iff : (s.nestingFault? v).isSome ↔ s.Tangled v := by
  simp [nestingFault?, faultWithin_isSome_iff, Tangled, Strays, maxNesting]

end Store

end TemplateEngine
