import TemplateEngine.Proofs.Numbers.Rounding

/-!
# Converting to integers

A text that writes a decimal integer is digits with a sign before them and blanks around
(`DecimalText`). If an integer can hold the number, it is read as such. If not, the text is read
once more as a float, which rounds the number: up to the middle between the last integer and the
next float after it, that gives `2 ^ 63` with the sign, which is converted to the last integer. This
is the one place where the conversion gives another number than what was written, or than a float
is.

* `conversion_is_exact_but_near_two_pow_63` — what texts of integers and floats are converted to.
-/

namespace TemplateEngine

/-! ## Texts that write an integer -/

/-- A decimal integer as it is written: digits, a sign and blanks around. -/
structure DecimalText where
  before : List Char
  sign : Option Bool
  digits : List Char
  after : List Char
  blank_before : ∀ c ∈ before, Text.isBlank c = true
  nonempty : digits ≠ []
  isDigit : digits.all Char.isDigit = true
  blank_after : ∀ c ∈ after, Text.isBlank c = true

namespace DecimalText

/-- The sign as it is written, of which the minus is `true`. -/
def signText : Option Bool → List Char
  | none => []
  | some negative => [if negative then '-' else '+']

variable (d : DecimalText)

/-- The sign and the digits. -/
def body : List Char := signText d.sign ++ d.digits

/-- The text with the blanks. -/
def text : String := String.ofList (d.before ++ d.body ++ d.after)

/-- The number that the digits write. -/
def magnitude : Nat := Nat.ofDigitChars 10 d.digits 0

/-- The number is written with a minus. -/
def negative : Bool := d.sign = some true

/-- The number that the text writes. -/
def number : Int := if d.negative then -(d.magnitude : Int) else d.magnitude

end DecimalText

/-! ## Reading -/

theorem Text.dropWhile_blanks {blanks rest : List Char} (hblanks : ∀ c ∈ blanks, isBlank c = true)
    (hrest : ∀ c ∈ rest.head?, isBlank c = false) : (blanks ++ rest).dropWhile isBlank = rest := by
  rw [List.dropWhile_append_of_pos hblanks]
  cases rest with
  | nil => rfl
  | cons c rest => simp [hrest c rfl]

theorem Text.trim_of_blanks {before body after : List Char} (hne : body ≠ [])
    (hbefore : ∀ c ∈ before, isBlank c = true) (hbody : ∀ c ∈ body, isBlank c = false)
    (hafter : ∀ c ∈ after, isBlank c = true) : trim (before ++ body ++ after) = body := by
  have hfirst : (before ++ (body ++ after)).dropWhile isBlank = body ++ after := by
    refine dropWhile_blanks hbefore fun c hc => hbody c ?_
    obtain ⟨b, bs, rfl⟩ := List.exists_cons_of_ne_nil hne
    simp_all
  have hlast : (after.reverse ++ body.reverse).dropWhile isBlank = body.reverse := by
    refine dropWhile_blanks (by simpa using hafter) fun c hc => hbody c ?_
    exact List.mem_reverse.1 (List.mem_of_mem_head? hc)
  rw [trim, List.append_assoc, hfirst, List.reverse_append, hlast, List.reverse_reverse]

/-! ## Digits -/

section

variable {c : Char}

theorem isBlank_of_isDigit (h : c.isDigit = true) : Text.isBlank c = false := by
  have hbounds : 48 ≤ c.toNat ∧ c.toNat ≤ 57 := Char.isDigit_iff_toNat.1 h
  simp only [Text.isBlank, Bool.or_eq_false_iff, Bool.and_eq_false_iff, decide_eq_false_iff_not]
  omega

theorem toLower_of_isDigit (h : c.isDigit = true) : c.toLower = c := by
  have hbounds : 48 ≤ c.toNat ∧ c.toNat ≤ 57 := Char.isDigit_iff_toNat.1 h
  unfold Char.toLower
  refine dif_neg fun hupper => ?_
  have : 65 ≤ c.toNat := hupper.1
  omega

end

namespace DecimalText

variable (d : DecimalText)

theorem isDigit_of_mem {c : Char} (h : c ∈ d.digits) : c.isDigit = true :=
  List.all_eq_true.1 d.isDigit c h

theorem body_ne_nil : d.body ≠ [] := by
  simp [body, d.nonempty]

theorem isBlank_of_mem_body {c : Char} (h : c ∈ d.body) : Text.isBlank c = false := by
  rcases List.mem_append.1 h with h | h
  · cases hsign : d.sign with
    | none => simp [hsign, signText] at h
    | some negative =>
      rw [hsign] at h
      obtain rfl := List.mem_singleton.1 h
      cases negative <;> decide
  · exact isBlank_of_isDigit (d.isDigit_of_mem h)

theorem trim_text : Text.trim d.text.toList = d.body := by
  rw [text, String.toList_ofList]
  exact Text.trim_of_blanks d.body_ne_nil d.blank_before (fun _ => d.isBlank_of_mem_body)
    d.blank_after

/-! ## Both readings -/

theorem digits_ne_cons (c : Char) (rest : List Char) (hc : c.isDigit = false) :
    d.digits ≠ c :: rest := by
  intro h
  have := d.isDigit_of_mem (h ▸ List.mem_cons_self)
  simp_all

theorem unsigned?_digits : Integer.unsigned? d.digits = some d.magnitude := by
  have hne : d.digits.isEmpty = false := by simpa using d.nonempty
  simp only [Integer.unsigned?, hne, d.isDigit]
  rfl

/-- The number is read if an integer can hold it. -/
theorem read?_body : Integer.read? d.body = Integer.fit? d.number := by
  have hdigits := d.unsigned?_digits
  cases hsign : d.sign with
  | none =>
    have hread : Integer.read? d.digits = (Integer.unsigned? d.digits).bind fun n =>
        Integer.fit? (n : Int) := by
      unfold Integer.read?
      split
      · next h => exact absurd h (d.digits_ne_cons _ _ rfl)
      · next h => exact absurd h (d.digits_ne_cons _ _ rfl)
      · rfl
    simp [body, signText, hsign, hread, hdigits, number, negative]
  | some negative =>
    cases negative <;>
      simp [body, signText, hsign, Integer.read?, hdigits, number, DecimalText.negative]

theorem reading_unsigned?_digits :
    Reading.unsigned? d.digits = some (Reading.nearest d.magnitude 0) := by
  have hlower : d.digits.map Char.toLower = d.digits :=
    (List.map_congr_left fun c hc => toLower_of_isDigit (d.isDigit_of_mem hc)).trans
      (List.map_id _)
  have hinf : d.digits ≠ ['i', 'n', 'f'] := d.digits_ne_cons 'i' _ rfl
  have hinfinity : d.digits ≠ ['i', 'n', 'f', 'i', 'n', 'i', 't', 'y'] := d.digits_ne_cons 'i' _ rfl
  have hnan : d.digits ≠ ['n', 'a', 'n'] := d.digits_ne_cons 'n' _ rfl
  have htake : d.digits.takeWhile Char.isDigit = d.digits :=
    List.takeWhile_eq_self_iff.2 fun c => d.isDigit_of_mem
  have hdrop : d.digits.dropWhile Char.isDigit = [] :=
    List.dropWhile_eq_nil_iff.2 fun c => d.isDigit_of_mem
  have hne : d.digits.isEmpty = false := by simpa using d.nonempty
  have hmagnitude : Integer.ofDigits d.digits = d.magnitude := rfl
  simp [Reading.unsigned?, Reading.power?, hlower, hinf, hinfinity, hnan, htake, hdrop, hne,
    hmagnitude]

/-- The number is read as the nearest float, with the sign. -/
theorem float?_body :
    Reading.float? d.body = some (signed d.negative (Reading.nearest d.magnitude 0)) := by
  have hdigits := d.reading_unsigned?_digits
  cases hsign : d.sign with
  | none =>
    have hread : Reading.float? d.digits = Reading.unsigned? d.digits := by
      unfold Reading.float?
      split
      · next h => exact absurd h (d.digits_ne_cons _ _ rfl)
      · next h => exact absurd h (d.digits_ne_cons _ _ rfl)
      · rfl
    simp [body, signText, hsign, hread, hdigits, signed, negative]
  | some negative =>
    cases negative <;>
      simp [body, signText, hsign, Reading.float?, hdigits, signed, DecimalText.negative]

end DecimalText

/-! ## Conversion -/

variable (s : Store)

theorem toInteger_text (t : String) :
    s.toInteger (.text t) =
      match Integer.read? (Text.trim t.toList) with
      | some n => .ok n
      | none =>
        match Reading.float? (Text.trim t.toList) with
        | some x => integerOfFloat x
        | none => .error (.textToInteger t) := rfl

namespace DecimalText

variable (d : DecimalText)

theorem toInteger_of_fits (h : Integer.Fits d.number) :
    s.toInteger (.text d.text) = .ok d.number := by
  rw [toInteger_text, d.trim_text, d.read?_body, Integer.fit?_eq_some_iff.2 ⟨rfl, h⟩]

theorem toInteger_of_not_fits (h : ¬Integer.Fits d.number) :
    s.toInteger (.text d.text) =
      if d.magnitude ≤ 2 ^ 63 + 1024 then
        .ok (if d.negative then Integer.least else Integer.greatest)
      else .error (.floatToInteger (signed d.negative (Reading.nearest d.magnitude 0))) := by
  have hlarge : 2 ^ 63 ≤ d.magnitude := by
    simp only [number, Integer.Fits, Integer.least, Integer.greatest] at h
    split at h <;> omega
  rw [toInteger_text, d.trim_text, d.read?_body, Integer.fit?_eq_none_iff.2 h, d.float?_body]
  exact integerOfFloat_nearest d.negative hlarge

end DecimalText

/-- A text that writes a decimal integer is converted to the number if an integer can hold it; a
float is converted if its value is an integer that a script can hold, and to that integer. Anything
else is refused, with one exception: numbers that are nearer to `± 2 ^ 63` than to the next float,
or in the middle, are converted to the last integer before them, and so is the float `2 ^ 63`. -/
theorem conversion_is_exact_but_near_two_pow_63 :
    (∀ d : DecimalText, s.toInteger (.text d.text) =
      if Integer.Fits d.number then .ok d.number
      else if d.magnitude ≤ 2 ^ 63 + 1024 then
        .ok (if d.negative then Integer.least else Integer.greatest)
      else .error (.floatToInteger (signed d.negative (Reading.nearest d.magnitude 0)))) ∧
    ∀ x : Float,
      (∀ n, s.toInteger (.float x) = .ok n ↔ ∃ k : Int, exactValue? x = some (k : ℚ) ∧
        Integer.least ≤ k ∧ k ≤ Integer.greatest + 1 ∧ n = min k Integer.greatest) ∧
      ((∃ n, s.toInteger (.float x) = .ok n) ∨
        s.toInteger (.float x) = .error (.floatToInteger x)) := by
  refine ⟨fun d => ?_, fun x => ⟨fun n => integerOfFloat_eq_ok_iff,
    integerOfFloat_eq_ok_or_error x⟩⟩
  by_cases h : Integer.Fits d.number
  · rw [if_pos h, d.toInteger_of_fits s h]
  · rw [if_neg h, d.toInteger_of_not_fits s h]

end TemplateEngine
