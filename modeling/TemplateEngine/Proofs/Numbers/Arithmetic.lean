import TemplateEngine.Proofs.Suppression.Outermost

/-!
# Arithmetic on integers

What an operator on two integers gives in exact arithmetic is said without a word of how it is
computed (`Exact`): there is always a sum, a difference and a product, a quotient if the division
comes out even, and a remainder unless the divisor is zero. Each has one value at the most, which is
the one that is computed (`Exact.div_eq`, `Exact.rem_eq`), and it is given if an integer can hold it
and refused otherwise.

One pair of integers comes out otherwise. The least integer divided by minus one is the one quotient
that no integer can hold (`fits_tdiv_iff`), and it is found out by its remainder, which is refused
along with it: so `/` takes the division for one that does not come out even and gives a float, and
`%` refuses a remainder of zero.

* `integer_arithmetic_is_exact_but_for_one_quotient` — what the six operators give.
-/

namespace TemplateEngine

/-! ## Exact results -/

/-- The operators that compute a number from two numbers. -/
def BinaryOp.arithmetic : List BinaryOp := [.add, .sub, .mul, .div, .rem]

/-- The integer that an operator gives for two integers in exact arithmetic. -/
inductive Exact (a b : Int) : BinaryOp → Int → Prop
  | add : Exact a b .add (a + b)
  | sub : Exact a b .sub (a - b)
  | mul : Exact a b .mul (a * b)
  | div {q : Int} (hb : b ≠ 0) (heven : q * b = a) : Exact a b .div q
  | rem {r : Int} (hdvd : b ∣ a - r) (hlt : r.natAbs < b.natAbs) (hnonneg : 0 ≤ a → 0 ≤ r)
    (hnonpos : a ≤ 0 → r ≤ 0) : Exact a b .rem r

/-- The quotient of the two integers is one more than the greatest integer. -/
def QuotientTooLarge (a b : Int) : Prop := a = Integer.least ∧ b = -1

section

variable {a b n : Int}

theorem Exact.div_eq (h : Exact a b .div n) : a.tdiv b = n ∧ a.tmod b = 0 := by
  cases h with
  | div hb heven =>
    subst heven
    exact ⟨Int.mul_tdiv_cancel _ hb, Int.mul_tmod_left _ _⟩

/-- Two remainders that have the sign of the dividend differ by less than the divisor. -/
theorem Exact.rem_eq (h : Exact a b .rem n) : a.tmod b = n := by
  cases h with | rem hdvd hlt hnonneg hnonpos =>
  have hsmall : (a.tmod b).natAbs < b.natAbs := by
    rw [Int.natAbs_tmod]
    exact Nat.mod_lt _ (by omega)
  have hmod_nonneg : 0 ≤ a → 0 ≤ a.tmod b := Int.tmod_nonneg b
  have hmod_nonpos : a ≤ 0 → a.tmod b ≤ 0 := fun ha => by
    have := Int.tmod_nonneg b (show 0 ≤ -a by omega)
    rw [Int.neg_tmod] at this
    omega
  have hmod_dvd : b ∣ a - a.tmod b := by
    have := Int.tmod_add_mul_tdiv a b
    exact ⟨a.tdiv b, by omega⟩
  have hdiff : b ∣ a.tmod b - n := by
    rw [show a.tmod b - n = (a - n) - (a - a.tmod b) by omega]
    exact Int.dvd_sub hdvd hmod_dvd
  have hzero : a.tmod b - n = 0 :=
    Int.eq_zero_of_dvd_of_natAbs_lt_natAbs hdiff (by omega)
  omega

/-- The quotient of two integers leaves the 64-bit range at one place only. -/
theorem fits_tdiv_iff (ha : Integer.Fits a) (hb : b ≠ 0) :
    Integer.Fits (a.tdiv b) ↔ ¬QuotientTooLarge a b := by
  have hquotient : (a.tdiv b).natAbs = a.natAbs / b.natAbs := Int.natAbs_tdiv a b
  simp only [QuotientTooLarge, Integer.Fits, Integer.least, Integer.greatest] at *
  constructor
  · rintro hfits ⟨rfl, rfl⟩
    exact absurd hfits (by decide)
  · intro hpair
    rcases show b = 1 ∨ b = -1 ∨ 2 ≤ b.natAbs by omega with rfl | rfl | hlarge
    · rw [Int.tdiv_one]
      omega
    · rw [Int.tdiv_neg, Int.tdiv_one]
      omega
    · have hhalf : a.natAbs / b.natAbs ≤ a.natAbs / 2 := Nat.div_le_div_left hlarge (by decide)
      omega

/-! ## What is computed -/

theorem exactly_eq (n : Int) :
    exactly n = if Integer.Fits n then .ok (.int n) else .error (.type .integerOverflow) := by
  unfold exactly Integer.fit?
  split <;> split <;> simp_all

/-- An exact result is an integer or one fault, and nothing else. -/
theorem exactly_ne {r : Except ScriptFault Value} (n : Int) (hint : ∀ m, r ≠ .ok (.int m))
    (hfault : r ≠ .error (.type .integerOverflow)) : exactly n ≠ r := by
  rw [exactly_eq]
  split
  · exact fun h => hint n h.symm
  · exact fun h => hfault h.symm

/-- An exact result is given if an integer can hold it, and otherwise it is refused. -/
theorem arithmeticIntegers_of_exact (ha : Integer.Fits a) (hb : Integer.Fits b) {op : BinaryOp}
    (h : Exact a b op n) (hpair : op = .div ∨ op = .rem → ¬QuotientTooLarge a b) :
    arithmeticIntegers op a b =
      if Integer.Fits n then .ok (.int n) else .error (.type .integerOverflow) := by
  cases h with
  | add => exact exactly_eq _
  | sub => exact exactly_eq _
  | mul => exact exactly_eq _
  | div hne heven =>
    obtain ⟨hquotient, hremainder⟩ := (Exact.div hne heven).div_eq
    have hfits := (fits_tdiv_iff ha hne).2 (hpair (.inl rfl))
    simp only [arithmeticIntegers, divideIntegers, hne, hquotient, hremainder] at hfits ⊢
    simp [hfits]
  | rem hdvd hlt hnonneg hnonpos =>
    have hne : b ≠ 0 := by omega
    have hremainder := (Exact.rem hdvd hlt hnonneg hnonpos).rem_eq
    have hquotient := (fits_tdiv_iff ha hne).2 (hpair (.inr rfl))
    have hfits : Integer.Fits n := by
      simp only [Integer.Fits, Integer.least, Integer.greatest] at *
      omega
    simp [arithmeticIntegers, remainderIntegers, hne, hquotient, hremainder, hfits]

theorem BinaryOp.mem_arithmetic {op : BinaryOp} (h : op ∈ arithmetic) :
    op = .add ∨ op = .sub ∨ op = .mul ∨ op = .div ∨ op = .rem := by
  simpa [arithmetic] using h

/-- Dividing by zero is refused as such, and nothing else is. -/
theorem arithmeticIntegers_eq_divisionByZero_iff {op : BinaryOp} (hop : op ∈ BinaryOp.arithmetic) :
    arithmeticIntegers op a b = .error .divisionByZero ↔ (op = .div ∨ op = .rem) ∧ b = 0 := by
  rcases BinaryOp.mem_arithmetic hop with rfl | rfl | rfl | rfl | rfl
  case inr.inr.inr.inl =>
    simp only [arithmeticIntegers, divideIntegers]
    split
    · simp_all
    · split <;> simp_all
  case inr.inr.inr.inr =>
    simp only [arithmeticIntegers, remainderIntegers]
    split
    · simp_all
    · split <;> simp_all
  all_goals exact iff_of_false (exactly_ne _ nofun nofun) (by simp)

/-- A float comes out of a division only, if it does not come out even or for the one pair, and it
is the quotient of the two as floats. -/
theorem arithmeticIntegers_eq_float_iff (ha : Integer.Fits a) {op : BinaryOp}
    (hop : op ∈ BinaryOp.arithmetic) {x : Float} :
    arithmeticIntegers op a b = .ok (.float x) ↔
      op = .div ∧ b ≠ 0 ∧ (b ∣ a → QuotientTooLarge a b) ∧
        x = Float.ofInt a / Float.ofInt b := by
  rcases BinaryOp.mem_arithmetic hop with rfl | rfl | rfl | rfl | rfl
  case inr.inr.inr.inl =>
    simp only [arithmeticIntegers, divideIntegers, Int.dvd_iff_tmod_eq_zero]
    by_cases hb : b = 0
    · simp [hb]
    · have hfits := fits_tdiv_iff ha hb
      rw [if_neg hb]
      split
      · simp_all
      · simp_all [eq_comm]
  case inr.inr.inr.inr =>
    simp only [arithmeticIntegers, remainderIntegers]
    split
    · simp
    · split <;> simp
  all_goals exact iff_of_false (exactly_ne _ nofun nofun) (by simp)

/-- The one pair: its quotient is a float, and its remainder is refused. -/
theorem arithmeticIntegers_of_quotientTooLarge (h : QuotientTooLarge a b) :
    arithmeticIntegers .div a b = .ok (.float 9223372036854775808.0) ∧
      arithmeticIntegers .rem a b = .error (.type .integerOverflow) := by
  obtain ⟨rfl, rfl⟩ := h
  refine ⟨?_, rfl⟩
  have hquotient : Float.ofInt Integer.least / Float.ofInt (-1) = 9223372036854775808.0 := by
    decide +kernel
  rw [← hquotient]
  rfl

end

/-! ## Expressions -/

/-- What a computation gives at a place. -/
def Outcome.ofComputation (p : Position) : Except ScriptFault Value → Outcome Value
  | .ok v => .ok v
  | .error fault => .error (.script p fault)

section

open TemplateEngine.Action Outcome

variable {m : Machine} {c d e : Context} {a b : Int}

theorem ofComputation_ite (p : Position) (holds : Prop) [Decidable holds] (v : Value)
    (fault : ScriptFault) :
    ofComputation p (if holds then .ok v else .error fault) =
      if holds then .ok v else .error (.script p fault) := by
  split <;> rfl

theorem ofComputation_eq_ok_iff {p : Position} {r : Except ScriptFault Value} {v : Value} :
    ofComputation p r = .ok v ↔ r = .ok v := by
  cases r <;> simp [ofComputation]

theorem ofComputation_eq_error_iff {p : Position} {r : Except ScriptFault Value}
    {fault : ScriptFault} : ofComputation p r = .error (.script p fault) ↔ r = .error fault := by
  cases r <;> simp [ofComputation]

/-- Unless a function comes out, the value of an expression is what the expression says itself. -/
theorem Expr.evaluate_eq_arrive {x : Expr} (hx : (x.arrive m).Blind)
    (h : ∀ f, (x.arrive m c).1 ≠ .ok (.function f)) : x.evaluate m c = x.arrive m c := by
  have hsettle : x.evaluate m c = withSuppression false (x.arrive m) c := by
    simp only [evaluate, reach_eq, withSuppression]
    rcases hc : x.arrive m { c with suppressed := false } with ⟨v | err | _, d⟩
    · rw [bind_of_ok hc]
      cases v with
      | function f =>
        have hblind := hx c false
        rw [show c.withSuppressed false = { c with suppressed := false } from rfl, hc] at hblind
        exact absurd (congrArg Prod.fst hblind).symm (h f)
      | _ => rfl
    · rw [bind_of_error hc]
    · rw [bind_of_outOfFuel hc]
  rw [hsettle, hx.withSuppression_eq]

theorem exactly_ne_function (n : Int) (f : Function) : exactly n ≠ .ok (.function f) :=
  exactly_ne n nofun nofun

theorem arithmeticIntegers_ne_function (op : BinaryOp) (a b : Int) (f : Function) :
    arithmeticIntegers op a b ≠ .ok (.function f) := by
  unfold arithmeticIntegers
  split
  · exact exactly_ne_function _ f
  · exact exactly_ne_function _ f
  · exact exactly_ne_function _ f
  · unfold divideIntegers
    split
    · nofun
    · split <;> nofun
  · unfold remainderIntegers
    split
    · nofun
    · split <;> nofun

/-- An operator computes with the integers that its sides give, each evaluated in turn. -/
theorem evaluate_arithmetic {l r : Expr} (hl : l.evaluate m c = (.ok (.int a), d))
    (hr : r.evaluate m d = (.ok (.int b), e)) {op : BinaryOp} (hop : op ∈ BinaryOp.arithmetic)
    (p : Position) :
    (Expr.binary op l r p).evaluate m c = (ofComputation p (arithmeticIntegers op a b), e) := by
  have harrive : (Expr.binary op l r p).arrive m = (do
      let x ← l.evaluate m
      let y ← r.evaluate m
      tryStore p fun s => s.binary op x y) := by
    rcases BinaryOp.mem_arithmetic hop with rfl | rfl | rfl | rfl | rfl <;> rfl
  have hblind : ((Expr.binary op l r p).arrive m).Blind := by
    rw [harrive]
    exact .bind (.withSuppression _ _) fun _ => .bind (.withSuppression _ _) fun _ =>
      .of_unaware (.tryStore _ _)
  have hbinary : e.store.binary op (.int a) (.int b) =
      (arithmeticIntegers op a b).map fun v => (v, e.store) := by
    rcases BinaryOp.mem_arithmetic hop with rfl | rfl | rfl | rfl | rfl <;> rfl
  have hvalue : (Expr.binary op l r p).arrive m c =
      (ofComputation p (arithmeticIntegers op a b), e) := by
    rw [harrive, bind_of_ok hl, bind_of_ok hr]
    simp only [tryStore, hbinary]
    cases arithmeticIntegers op a b <;> rfl
  have hne (f : Function) : ((Expr.binary op l r p).arrive m c).1 ≠ .ok (.function f) := by
    rw [hvalue]
    exact mt ofComputation_eq_ok_iff.1 (arithmeticIntegers_ne_function op a b f)
  rw [Expr.evaluate_eq_arrive hblind hne, hvalue]

/-- Negation computes with the integer that its operand gives. -/
theorem evaluate_negation {x : Expr} (hx : x.evaluate m c = (.ok (.int a), d)) (p : Position) :
    (Expr.unary .neg x p).evaluate m c = (ofComputation p (exactly (-a)), d) := by
  have hblind : ((Expr.unary .neg x p).arrive m).Blind :=
    .bind (.withSuppression _ _) fun _ => .of_unaware (.tryView _ _)
  have hvalue : (Expr.unary .neg x p).arrive m c = (ofComputation p (exactly (-a)), d) := by
    simp only [Expr.arrive, bind_of_ok hx, tryView, Store.unary]
    cases exactly (-a) <;> rfl
  have hne (f : Function) : ((Expr.unary .neg x p).arrive m c).1 ≠ .ok (.function f) := by
    rw [hvalue]
    exact mt ofComputation_eq_ok_iff.1 (exactly_ne_function _ f)
  rw [Expr.evaluate_eq_arrive hblind hne, hvalue]

/-- Sums, differences, products, quotients that come out even, remainders and negated integers are
exact, and refused where the expression stands if no integer can hold them; a division by zero is
refused as such, and a division that does not come out even gives the quotient of floats. The
exception is the quotient that is one more than the greatest integer: it is given as a float, and
the remainder, which is zero, is refused like an integer too large. -/
theorem integer_arithmetic_is_exact_but_for_one_quotient {l r : Expr} (ha : Integer.Fits a)
    (hb : Integer.Fits b) (hl : l.evaluate m c = (.ok (.int a), d))
    (hr : r.evaluate m d = (.ok (.int b), e)) (p : Position) :
    (∀ op n, Exact a b op n → (op = .div ∨ op = .rem → ¬QuotientTooLarge a b) →
      (Expr.binary op l r p).evaluate m c =
        (if Integer.Fits n then .ok (.int n)
        else .error (.script p (.type .integerOverflow)), e)) ∧
    (Expr.unary .neg l p).evaluate m c =
      (if Integer.Fits (-a) then .ok (.int (-a))
      else .error (.script p (.type .integerOverflow)), d) ∧
    (∀ op ∈ BinaryOp.arithmetic, ((Expr.binary op l r p).evaluate m c).2 = e ∧
      (((Expr.binary op l r p).evaluate m c).1 = .error (.script p .divisionByZero) ↔
        (op = .div ∨ op = .rem) ∧ b = 0) ∧
      ∀ x, ((Expr.binary op l r p).evaluate m c).1 = .ok (.float x) ↔
        op = .div ∧ b ≠ 0 ∧ (b ∣ a → QuotientTooLarge a b) ∧
          x = Float.ofInt a / Float.ofInt b) ∧
    (QuotientTooLarge a b →
      (Expr.binary .div l r p).evaluate m c = (.ok (.float 9223372036854775808.0), e) ∧
      (Expr.binary .rem l r p).evaluate m c =
        (.error (.script p (.type .integerOverflow)), e)) := by
  have hvalue {op : BinaryOp} (hop : op ∈ BinaryOp.arithmetic) :
      (Expr.binary op l r p).evaluate m c = (ofComputation p (arithmeticIntegers op a b), e) :=
    evaluate_arithmetic hl hr hop p
  refine ⟨fun op n hn hpair => ?_, ?_, fun op hop => ?_, fun hpair => ?_⟩
  · have hop : op ∈ BinaryOp.arithmetic := by
      cases hn <;> decide
    rw [hvalue hop, arithmeticIntegers_of_exact ha hb hn hpair, ofComputation_ite]
  · rw [evaluate_negation hl, exactly_eq, ofComputation_ite]
  · rw [hvalue hop]
    exact ⟨rfl,
      ofComputation_eq_error_iff.trans (arithmeticIntegers_eq_divisionByZero_iff hop),
      fun x => ofComputation_eq_ok_iff.trans (arithmeticIntegers_eq_float_iff ha hop)⟩
  · obtain ⟨hdiv, hrem⟩ := arithmeticIntegers_of_quotientTooLarge hpair
    rw [hvalue (by decide), hvalue (by decide), hdiv, hrem]
    exact ⟨rfl, rfl⟩

theorem quotient_of_least_is_exception :
    let p : Position := ⟨1, 1⟩
    let m := machine Host.applying 0
    let c := (Settings.standard id).newContext
    let minus (n : Int) : Expr := .unary .neg (.literal (.int n) p) p
    let least : Expr := .binary .sub (minus 9223372036854775807) (.literal (.int 1) p) p
    least.evaluate m c = (.ok (.int Integer.least), c) ∧
      (minus 1).evaluate m c = (.ok (.int (-1)), c) ∧
      (Expr.binary .div least (minus 1) p).evaluate m c =
        (.ok (.float 9223372036854775808.0), c) ∧
      (Expr.binary .rem least (minus 1) p).evaluate m c =
        (.error (.script p (.type .integerOverflow)), c) := by
  intro p m c minus least
  have hleast : least.evaluate m c = (.ok (.int Integer.least), c) := rfl
  have hminusOne : (minus 1).evaluate m c = (.ok (.int (-1)), c) := rfl
  obtain ⟨-, -, -, hpair⟩ := integer_arithmetic_is_exact_but_for_one_quotient (by decide)
    (by decide) hleast hminusOne p
  exact ⟨hleast, hminusOne, hpair ⟨rfl, rfl⟩⟩

end

end TemplateEngine
