import TemplateEngine.Semantics.Builtins

/-!
# What a range holds

A range goes from its start by its step as long as it has not come to its end (`Progression`). The
count of its numbers, a quotient that is rounded up, is one more than the count from the next number
on, so that the sum that grows by the step stops where the progression does. Between start and end
lie integers only, which cutting them down to 64 bits leaves as they are, and neither the distance
of start and end nor the sum after the last number comes near the ends of 128 bits.

* `range_is_progression` — the list that a range gives, or that it is too long for.
-/

namespace TemplateEngine

/-! ## Progressions -/

/-- The number lies before the end of a range, in the direction of the step. -/
def LiesBefore (step stop n : Int) : Prop := if 0 < step then n < stop else stop < n

instance (step stop n : Int) : Decidable (LiesBefore step stop n) :=
  inferInstanceAs (Decidable (if 0 < step then n < stop else stop < n))

/-- The numbers from one on, each one `step` further than the one before, as long as they lie before
the end. -/
inductive Progression (step stop : Int) : Int → List Int → Prop
  | done {n : Int} (h : ¬LiesBefore step stop n) : Progression step stop n []
  | next {n : Int} {ns : List Int} (h : LiesBefore step stop n)
    (rest : Progression step stop (n + step) ns) : Progression step stop n (n :: ns)

/-- No two lists go from one number by the same step to the same end. -/
theorem Progression.unique {step stop n : Int} {ns ms : List Int}
    (hn : Progression step stop n ns) (hm : Progression step stop n ms) : ns = ms := by
  induction hn generalizing ms with
  | done h =>
    cases hm with
    | done => rfl
    | next h' => exact absurd h' h
  | next h rest ih =>
    cases hm with
    | done h' => exact absurd h h'
    | next _ rest' => rw [ih rest']

/-- The integer lies in the 128-bit range. -/
def Integer.FitsWide (n : Int) : Prop :=
  -170141183460469231731687303715884105728 ≤ n ∧ n < 170141183460469231731687303715884105728

theorem liesBefore_iff {step stop n : Int} :
    LiesBefore step stop n ↔ 0 < step ∧ n < stop ∨ step ≤ 0 ∧ stop < n := by
  unfold LiesBefore
  split <;> omega

theorem Integer.fitsWide_sub {a b : Int} (ha : Fits a) (hb : Fits b) : FitsWide (a - b) := by
  simp only [Fits, FitsWide, least, greatest] at *
  omega

/-- Going in the direction of the step, the numbers lie behind the first one and before the end. -/
theorem Progression.between {step stop n : Int} {ns : List Int} (h : Progression step stop n ns) :
    ∀ k ∈ ns, 0 < step ∧ n ≤ k ∧ k < stop ∨ step ≤ 0 ∧ stop < k ∧ k ≤ n := by
  induction h with
  | done => exact fun k hk => absurd hk List.not_mem_nil
  | next h rest ih =>
    rw [liesBefore_iff] at h
    intro k hk
    rcases List.mem_cons.1 hk with rfl | hk
    · omega
    · have hbetween := ih k hk
      omega

/-- No number of a progression leaves the integers between its start and its end, and neither does
the sum behind it leave 128 bits. -/
theorem Progression.fits {step stop n : Int} {ns : List Int} (h : Progression step stop n ns)
    (hn : Integer.Fits n) (hstop : Integer.Fits stop) (hstep : Integer.Fits step) :
    ∀ k ∈ ns, Integer.Fits k ∧ Integer.FitsWide (k + step) := by
  intro k hk
  have hbetween := h.between k hk
  simp only [Integer.Fits, Integer.FitsWide, Integer.least, Integer.greatest] at *
  omega

/-! ## The numbers of a range -/

theorem toList_countBy (step : Int) (count : Nat) (current : Int) (numbers : Array Int) :
    (countBy step count current numbers).toList =
      numbers.toList ++ (countBy step count current #[]).toList := by
  induction count generalizing current numbers with
  | zero => simp [countBy]
  | succ count ih =>
    rw [countBy, ih, countBy, ih _ (#[].push current)]
    simp

theorem toList_countBy_succ (step : Int) (count : Nat) (current : Int) :
    (countBy step (count + 1) current #[]).toList =
      current :: (countBy step count (current + step) #[]).toList := by
  rw [countBy, toList_countBy]
  rfl

section

variable {start stop step : Int}

theorem rangeCount_of_not_liesBefore (h : ¬LiesBefore step stop start) :
    rangeCount start stop step = 0 := by
  rw [liesBefore_iff] at h
  unfold rangeCount
  split
  · exact if_pos (by omega)
  · exact if_pos (by omega)

/-- A quotient rounded up is by one less for what is left when the divisor is taken away. -/
theorem roundedUp_quotient {span size : Int} (hsize : 0 < size) (hspan : 0 < span) :
    ((span - 1) / size + 1).toNat =
      (if span - size ≤ 0 then 0 else ((span - size - 1) / size + 1).toNat) + 1 := by
  split
  · have hquotient : (span - 1) / size = 0 := Int.ediv_eq_zero_of_lt (by omega) (by omega)
    rw [hquotient]
    rfl
  · have hquotient : (span - 1) / size = (span - size - 1) / size + 1 := by
      have hspan : span - 1 = span - size - 1 + 1 * size := by omega
      rw [hspan, Int.add_mul_ediv_right _ _ (by omega)]
    have hnonneg : 0 ≤ (span - size - 1) / size := Int.ediv_nonneg (by omega) (by omega)
    omega

/-- The first number is one, and the others are those from the next number on. -/
theorem rangeCount_of_liesBefore (hne : step ≠ 0) (h : LiesBefore step stop start) :
    rangeCount start stop step = rangeCount (start + step) stop step + 1 := by
  unfold LiesBefore at h
  unfold rangeCount
  split at h
  · next hpos =>
    have hsize : (step.natAbs : Int) = step := by omega
    have hspan : stop - (start + step) = stop - start - step := by omega
    simp only [hpos, if_true, hsize, hspan]
    rw [if_neg (by omega)]
    exact roundedUp_quotient hpos (by omega)
  · next hneg =>
    have hsize : (step.natAbs : Int) = -step := by omega
    have hspan : start + step - stop = start - stop - -step := by omega
    simp only [hneg, if_false, hsize, hspan]
    rw [if_neg (by omega)]
    exact roundedUp_quotient (by omega) (by omega)

/-- The sum that grows by the step goes through the progression. -/
theorem progression_countBy (hne : step ≠ 0) :
    Progression step stop start
      (countBy step (rangeCount start stop step) start #[]).toList := by
  induction hcount : rangeCount start stop step generalizing start with
  | zero =>
    refine .done fun h => ?_
    rw [rangeCount_of_liesBefore hne h] at hcount
    cases hcount
  | succ count ih =>
    have h : LiesBefore step stop start := Decidable.byContradiction fun h => by
      rw [rangeCount_of_not_liesBefore h] at hcount
      cases hcount
    rw [rangeCount_of_liesBefore hne h, Nat.add_right_cancel_iff] at hcount
    rw [toList_countBy_succ]
    exact .next h (ih hcount)

theorem length_countBy (count : Nat) : (countBy step count start #[]).toList.length = count := by
  induction count generalizing start with
  | zero => rfl
  | succ count ih => rw [toList_countBy_succ, List.length_cons, ih]

/-- Between start and end nothing is cut. -/
theorem rangeItems_eq (hstart : Integer.Fits start) (hstop : Integer.Fits stop)
    (hstep : Integer.Fits step) (hne : step ≠ 0) :
    rangeItems start stop step =
      (countBy step (rangeCount start stop step) start #[]).toList.map .int := by
  refine List.map_congr_left fun k hk => ?_
  rw [Integer.narrow_of_fits ((progression_countBy hne).fits hstart hstop hstep k hk).1]

end

/-- A range has no more numbers than there are from its start to its end. -/
theorem rangeCount_le_natAbs (start stop step : Int) :
    rangeCount start stop step ≤ (stop - start).natAbs := by
  unfold rangeCount
  extract_lets span
  have hspan : span ≤ (stop - start).natAbs := by
    unfold span
    split <;> omega
  split
  · exact Nat.zero_le _
  · have hquotient := Int.ediv_le_self step.natAbs (show 0 ≤ span - 1 by omega)
    omega

/-! ## The function -/

section

open TemplateEngine.Action

variable (p : Position)

@[simp] theorem toInteger_int (n : Int) : toInteger (.int n) p = pure n := rfl

theorem call_range_ints (start stop step : Int) (c : Context) (hne : step ≠ 0) :
    Builtin.range.call [.int start, .int stop, .int step] p c =
      if rangeCount start stop step ≤ c.limits.loops then
        onStore (fun s => s.newList (rangeItems start stop step)) c
      else (.error (.script p (.loopLimit c.limits.loops)), c) := by
  have hcall : Builtin.range.call [.int start, .int stop, .int step] p c =
      (if c.limits.loops < rangeCount start stop step then
        failAt p (.loopLimit c.limits.loops)
      else onStore fun s => s.newList (rangeItems start stop step)) c := by
    simp [Builtin.call, Builtin.arity, Builtin.apply, Builtin.rangeOf, Builtin.rangeBounds, hne,
      bind_apply, view]
  rw [hcall]
  split
  · rw [if_neg (by omega)]
    rfl
  · rw [if_pos (by omega)]

/-- A range without a step has the step one. -/
theorem call_range_two (v w : Value) :
    Builtin.range.call [v, w] p = Builtin.range.call [v, w, .int 1] p := by
  simp [Builtin.call, Builtin.arity, Builtin.apply, Builtin.rangeOf, Builtin.rangeBounds]

/-- A range without a start starts at zero. -/
theorem call_range_one (v : Value) :
    Builtin.range.call [v] p = Builtin.range.call [.int 0, v, .int 1] p := by
  have hbounds : Builtin.rangeBounds p [v] = Builtin.rangeBounds p [.int 0, v, .int 1] := rfl
  simp [Builtin.call, Builtin.arity, Builtin.apply, Builtin.rangeOf, hbounds]

/-- A range of integers with a step is a new list of the numbers from the start on, by the step, as
far as they lie before the end. If they are more than loops may have rounds, the call fails where it
stands, and nothing changes. No number of the list is cut when it becomes an item, and nothing that
is computed for it leaves 128 bits. A range without a step, or without a start as well, has the step
one and starts at zero. -/
theorem range_is_progression {start stop step : Int} (hstart : Integer.Fits start)
    (hstop : Integer.Fits stop) (hstep : Integer.Fits step) (hne : step ≠ 0) (c : Context) :
    (∃ ns, Progression step stop start ns ∧
      (∀ n ∈ ns, Integer.Fits n ∧ Integer.FitsWide (n + step)) ∧
      Integer.FitsWide (stop - start) ∧ Integer.FitsWide (start - stop) ∧
      Integer.FitsWide ns.length ∧
      Builtin.range.call [.int start, .int stop, .int step] p c =
        if ns.length ≤ c.limits.loops then onStore (fun s => s.newList (ns.map .int)) c
        else (.error (.script p (.loopLimit c.limits.loops)), c)) ∧
    (∀ v w, Builtin.range.call [v, w] p = Builtin.range.call [v, w, .int 1] p) ∧
    ∀ v, Builtin.range.call [v] p = Builtin.range.call [.int 0, v, .int 1] p := by
  refine ⟨⟨_, progression_countBy hne, (progression_countBy hne).fits hstart hstop hstep,
    Integer.fitsWide_sub hstop hstart, Integer.fitsWide_sub hstart hstop, ?_, ?_⟩,
    call_range_two p, call_range_one p⟩
  · have hcount := rangeCount_le_natAbs start stop step
    rw [length_countBy]
    simp only [Integer.Fits, Integer.FitsWide, Integer.least, Integer.greatest] at *
    omega
  · rw [call_range_ints p _ _ _ c hne, rangeItems_eq hstart hstop hstep hne, length_countBy]

/-- A step of the least integer is farther than any other, and yet two numbers lie on its way from
the greatest one down. -/
theorem range_by_least_is_progression :
    let c := (Settings.standard id).newContext
    Integer.Fits Integer.greatest ∧ Integer.Fits Integer.least ∧ Integer.least ≠ 0 ∧
      Builtin.range.call [.int Integer.greatest, .int Integer.least, .int Integer.least] ⟨1, 1⟩ c =
        onStore (fun s => s.newList [.int Integer.greatest, .int (-1)]) c := by
  refine ⟨by decide, by decide, by decide, ?_⟩
  have hgreatest : Integer.Fits Integer.greatest := by decide
  have hleast : Integer.Fits Integer.least := by decide
  obtain ⟨⟨ns, hns, -, -, -, -, hcall⟩, -⟩ := range_is_progression ⟨1, 1⟩ hgreatest hleast hleast
    (by decide) (Settings.standard id).newContext
  have htwo : ns = [Integer.greatest, -1] :=
    hns.unique (.next (by decide) (.next (by decide) (.done (by decide))))
  rw [hcall, htwo]
  rfl

end

end TemplateEngine
