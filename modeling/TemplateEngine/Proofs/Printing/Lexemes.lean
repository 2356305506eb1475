import TemplateEngine.Proofs.Printing.Scans
import TemplateEngine.Proofs.Spelling.Quotes
import TemplateEngine.Syntax.Printer

/-!
# Printed words, numbers and texts

A word, a number and a quoted text are read back from what is printed for them, if what stands
behind does not go on with them. A quoted text can be told from what is behind it in any case.
-/

namespace TemplateEngine

open Scanner

/-! ## Words -/

/-- No word goes on here. -/
def EndsWord (cs : List Char) : Prop := ∀ c ∈ cs.head?, isWordChar c = false

/-- The text is a name. -/
def IsIdentifier (w : String) : Prop := isName w = true ∧ w.toList.all isWordChar = true

instance : DecidablePred IsIdentifier := fun _ => inferInstanceAs (Decidable (_ ∧ _))

section

variable {ok : Char → Bool} {taken rest : List Char}

theorem takeWhile_eq_nil (hrest : ∀ c ∈ rest.head?, ok c = false) : rest.takeWhile ok = [] := by
  cases rest with
  | nil => rfl
  | cons c rest => simp [hrest c rfl]

theorem takeWhile_append_eq (htaken : taken.all ok = true)
    (hrest : ∀ c ∈ rest.head?, ok c = false) : (taken ++ rest).takeWhile ok = taken := by
  rw [List.takeWhile_append_of_pos (List.all_eq_true.1 htaken), takeWhile_eq_nil hrest,
    List.append_nil]

theorem dropWhile_append_eq (htaken : taken.all ok = true)
    (hrest : ∀ c ∈ rest.head?, ok c = false) : (taken ++ rest).dropWhile ok = rest := by
  rw [List.dropWhile_append_of_pos (List.all_eq_true.1 htaken)]
  cases rest with
  | nil => rfl
  | cons c rest => simp [hrest c rfl]

end

theorem EndsWord.takeWhile_eq {cs : List Char} (h : EndsWord cs) :
    cs.takeWhile isWordChar = [] := takeWhile_eq_nil h

section

variable {wanted : String → Bool} {w : String} {rest cs : List Char}

theorem scans_wordThat (hw : w.toList.all isWordChar = true) (hrest : EndsWord rest)
    (h : wanted w = true) :
    Scans (wordThat wanted) (w.toList ++ rest) fun a r => a = w ∧ r = rest := by
  intro c hc
  have hword : c.rest.takeWhile isWordChar = w.toList := by
    rw [hc, takeWhile_append_eq hw hrest]
  refine ⟨w, c.drop w.toList, ?_, rfl, ?_⟩
  · unfold Reads wordThat
    dsimp only
    rw [hword, String.ofList_toList, if_pos h]
  · unfold Cursor.drop
    rw [hc, List.drop_left]

theorem fails_wordThat (h : wanted (String.ofList (cs.takeWhile isWordChar)) = false) :
    Fails (wordThat wanted) cs := by
  rintro c rfl
  unfold wordThat
  dsimp only
  rw [h]
  rfl

/-- A word is not taken for another one. -/
theorem fails_wordThat_word (hw : w.toList.all isWordChar = true) (hrest : EndsWord rest)
    (h : wanted w = false) : Fails (wordThat wanted) (w.toList ++ rest) := by
  apply fails_wordThat
  rwa [takeWhile_append_eq hw hrest, String.ofList_toList]

theorem scans_identifier (hw : IsIdentifier w) (hrest : EndsWord rest) :
    Scans identifier (w.toList ++ rest) fun a r => a = w ∧ r = rest :=
  .rule (scans_wordThat hw.2 hrest hw.1)

end

/-! ## Numbers -/

section

variable {ds rest cs : List Char}

theorem scans_digits (hds : ds.all Char.isDigit = true) (hne : ds ≠ [])
    (hrest : ∀ c ∈ rest.head?, c.isDigit = false) :
    Scans digits (ds ++ rest) fun a r => a = ds ∧ r = rest := by
  refine .bind (.takeWhile _) ?_
  rintro _ r ⟨rfl, rfl⟩
  rw [takeWhile_append_eq hds hrest, dropWhile_append_eq hds hrest, if_neg]
  · exact .pure ⟨rfl, rfl⟩
  · rwa [List.isEmpty_iff]

theorem fails_digits (h : ∀ c ∈ cs.head?, c.isDigit = false) : Fails digits cs := by
  refine .after (.takeWhile _) ?_
  rintro _ r ⟨rfl, rfl⟩
  rw [takeWhile_eq_nil h]
  exact .fail

/-- What stands behind does not go on with a word or a number. -/
structure EndsLexeme (cs : List Char) : Prop where
  word : EndsWord cs
  fraction : ∀ d r, cs = '.' :: d :: r → d.isDigit = false

theorem isDigit_of_endsWord (h : EndsWord rest) : ∀ c ∈ rest.head?, c.isDigit = false := by
  intro c hc
  have hword := h c hc
  simp only [isWordChar, Char.isAlphanum, Bool.or_eq_false_iff] at hword
  exact hword.1.2

theorem fails_floatLiteral (hds : ds.all Char.isDigit = true) (hne : ds ≠ [])
    (hrest : EndsLexeme rest) : Fails floatLiteral (ds ++ rest) := by
  refine .rule <| .after (scans_digits hds hne (isDigit_of_endsWord hrest.word)) ?_
  rintro _ r ⟨rfl, rfl⟩
  cases r with
  | nil => exact .bind (.exactly rfl)
  | cons x r =>
    by_cases hx : x = '.'
    · subst hx
      refine .after (.exactly "." r) ?_
      rintro _ _ rfl
      refine .bind (fails_digits ?_)
      rintro d hd
      obtain ⟨r', rfl⟩ := List.head?_eq_some_iff.1 hd
      exact hrest.fraction d r' rfl
    · refine .bind (.exactly ?_)
      have hdot : ".".toList = ['.'] := rfl
      rw [hdot, List.isPrefixOf_cons_cons, beq_false_of_ne (Ne.symm hx), Bool.false_and]

theorem scans_intLiteral (hds : ds.all Char.isDigit = true) (hne : ds ≠ [])
    (hrest : EndsWord rest) :
    Scans intLiteral (ds ++ rest) fun a r => a = .int (Integer.ofDigits ds) ∧ r = rest := by
  refine .rule <| .bind (scans_digits hds hne (isDigit_of_endsWord hrest)) ?_
  rintro _ r ⟨rfl, rfl⟩
  exact .pure ⟨rfl, rfl⟩

/-- A number is what its digits write. -/
theorem ofDigits_toDigits (n : Nat) : Integer.ofDigits (Nat.toDigits 10 n) = n :=
  Nat.ofDigitChars_toDigits (by decide) (by decide)

theorem isDigit_toDigits (n : Nat) : (Nat.toDigits 10 n).all Char.isDigit = true :=
  List.all_eq_true.2 fun _ => Nat.isDigit_of_mem_toDigits (by decide) (by decide)

end

/-! ## Quoted texts -/

/-- Printable characters of ASCII, and the controls that have a mark of their own in quoted text. -/
def IsPlainChar (c : Char) : Prop :=
  (' ' ≤ c ∧ c ≤ '~') ∨ c = '\n' ∨ c = '\t' ∨ c = '\r' ∨ c = '\x00'

instance : DecidablePred IsPlainChar := fun _ => inferInstanceAs (Decidable (_ ∨ _))

/-- A plain character is written by a mark behind a backslash, or as it is. -/
theorem escape_cases {c : Char} (h : IsPlainChar c) :
    (∃ mark, Text.escape c = ['\\', mark] ∧ escaped mark = c) ∨
    Text.escape c = [c] ∧ c ≠ '"' ∧ c ≠ '\\' := by
  by_cases hquote : c = '"'
  · subst hquote
    exact .inl ⟨'"', rfl, rfl⟩
  by_cases hslash : c = '\\'
  · subst hslash
    exact .inl ⟨'\\', rfl, rfl⟩
  obtain ⟨hle, hge⟩ | rfl | rfl | rfl | rfl := h
  · have hlow : 32 ≤ c.toNat := hle
    have hhigh : c.toNat ≤ 126 := hge
    have hcontrol : ∀ d : Char, d.toNat < 32 → c ≠ d := by
      rintro d hd rfl
      omega
    have hprinted : Text.escape c = [c] := by
      rw [Text.escape, if_neg hquote, if_neg hslash, if_neg (hcontrol _ (by decide)),
        if_neg (hcontrol _ (by decide)), if_neg (hcontrol _ (by decide)), if_neg (by omega),
        if_pos (by simp; omega)]
    exact .inr ⟨hprinted, hquote, hslash⟩
  · exact .inl ⟨'n', rfl, rfl⟩
  · exact .inl ⟨'t', rfl, rfl⟩
  · exact .inl ⟨'r', rfl, rfl⟩
  · exact .inl ⟨'0', rfl, rfl⟩

/-- Plain characters are what their escapes write. -/
theorem decodes_escape {cs : List Char} (h : ∀ c ∈ cs, IsPlainChar c) :
    Decodes .double (cs.flatMap Text.escape) cs := by
  induction cs with
  | nil => exact .nil
  | cons c cs ih =>
    obtain ⟨hc, hcs⟩ := List.forall_mem_cons.1 h
    rw [List.flatMap_cons]
    obtain ⟨mark, hescape, rfl⟩ | ⟨hescape, hquote, hslash⟩ := escape_cases hc
    · rw [hescape]
      exact .escape mark (ih hcs)
    · rw [hescape]
      exact .plain hquote hslash (ih hcs)

/-- What the body writes is read between the quotes, whatever stands behind them. -/
theorem scans_stringLiteral {q : Quote} {body : List Char} {s : String}
    (h : Decodes q body s.toList) (rest : List Char) :
    Scans stringLiteral (q.char :: (body ++ [q.char]) ++ rest) fun a r => a = s ∧ r = rest := by
  intro c hc
  have hbehind : c.Behind (q.char :: (body ++ [q.char])) (c.drop (q.char :: (body ++ [q.char]))) :=
    Cursor.behind_drop ⟨rest, hc.symm⟩
  refine ⟨s, _, reads_stringLiteral_iff.2 ⟨q, body, h, hbehind⟩, rfl, ?_⟩
  exact List.append_cancel_left (hbehind.rest.symm.trans hc)

theorem fails_stringLiteral {cs : List Char} (h : ∀ c ∈ cs.head?, c ≠ '"' ∧ c ≠ '\'') :
    Fails stringLiteral cs := by
  refine .rule <| .orElse ?_ ?_
  · rintro c rfl
    exact quotedBy_eq_none fun x hx => (h x hx).1
  · rintro c rfl
    exact quotedBy_eq_none fun x hx => (h x hx).2

/-! ## Constants -/

/-- The constant can be written as an integer without a sign, a plain text or a word. -/
def Literal.Plain : Literal → Prop
  | .int n => 0 ≤ n
  | .float _ => False
  | .text s => ∀ c ∈ s.toList, IsPlainChar c
  | .null | .bool _ => True

/-- What begins a name is no digit. -/
theorem isDigit_of_isNameStart {c : Char} (h : isNameStart c = true) : c.isDigit = false := by
  by_cases hunderscore : c = '_'
  · subst hunderscore
    rfl
  · have halpha : c.isAlpha = (decide (65 ≤ c.val.toNat ∧ c.val.toNat ≤ 90) ||
        decide (97 ≤ c.val.toNat) && decide (c.val.toNat ≤ 122)) := rfl
    have hdigit : c.isDigit = (decide (48 ≤ c.val.toNat) && decide (c.val.toNat ≤ 57)) := rfl
    simp only [isNameStart, hunderscore, decide_false, Bool.or_false, halpha, Bool.or_eq_true,
      Bool.and_eq_true, decide_eq_true_eq] at h
    rw [hdigit, Bool.and_eq_false_iff]
    exact .inr (decide_eq_false (by omega))

/-- Where a name begins neither a number nor a text begins. -/
theorem fails_before_word {cs : List Char} (h : ∀ c ∈ cs.head?, isNameStart c = true) :
    Fails digits cs ∧ Fails stringLiteral cs := by
  refine ⟨fails_digits fun c hc => isDigit_of_isNameStart (h c hc), ?_⟩
  refine fails_stringLiteral fun c hc => ⟨?_, ?_⟩ <;>
  · rintro rfl
    exact absurd (h _ hc) (by decide)

/-- Where no number, no text and none of the words begins there is no constant. -/
theorem fails_literal {cs : List Char} (hdigits : Fails digits cs) (htext : Fails stringLiteral cs)
    (hword : String.ofList (cs.takeWhile isWordChar) ∉ ["true", "false", "null"]) :
    Fails literal cs := by
  simp only [List.mem_cons, List.not_mem_nil, or_false, not_or] at hword
  refine .firstOf ?_
  simp only [List.forall_mem_cons, List.not_mem_nil, false_imp_iff, implies_true, and_true]
  refine ⟨.rule (.bind hdigits), .rule (.bind hdigits), .bind htext,
    .bind (.rule (fails_wordThat ?_)), .bind (.rule (fails_wordThat ?_))⟩
  · simp [hword.1, hword.2.1]
  · simp [hword.2.2]

/-- Between quotes a text is a constant, whatever stands behind them. -/
theorem scans_literal_text {q : Quote} {body : List Char} {s : String}
    (h : Decodes q body s.toList) (rest : List Char) :
    Scans literal (q.char :: (body ++ [q.char]) ++ rest) fun a r => a = .text s ∧ r = rest := by
  have hdigits : Fails digits (q.char :: (body ++ [q.char]) ++ rest) := by
    refine fails_digits ?_
    rintro _ ⟨⟩
    cases q <;> rfl
  refine .firstOf [floatLiteral, intLiteral] ?_ ?_
  · simp only [List.forall_mem_cons, List.not_mem_nil, false_imp_iff, implies_true, and_true]
    exact ⟨.rule (.bind hdigits), .rule (.bind hdigits)⟩
  · refine .bind (scans_stringLiteral h rest) ?_
    rintro _ r ⟨rfl, rfl⟩
    exact .pure ⟨rfl, rfl⟩

/-- A printed constant is read back. -/
theorem scans_literal {value : Literal} (h : value.Plain) {rest : List Char}
    (hrest : EndsLexeme rest) :
    Scans literal (value.display.toList ++ rest) fun a r => a = value ∧ r = rest := by
  cases value with
  | null =>
    have hstart : ∀ c ∈ ("null".toList ++ rest).head?, isNameStart c = true := by
      rintro _ ⟨⟩
      rfl
    obtain ⟨hdigits, htext⟩ := fails_before_word hstart
    refine .firstOf [floatLiteral, intLiteral, _, _] ?_ ?_
    · simp only [List.forall_mem_cons, List.not_mem_nil, false_imp_iff, implies_true, and_true]
      exact ⟨.rule (.bind hdigits), .rule (.bind hdigits), .bind htext,
        .bind (.rule (fails_wordThat_word (by decide) hrest.word rfl))⟩
    · refine .bind (.rule (scans_wordThat (by decide) hrest.word rfl)) ?_
      rintro _ r ⟨rfl, rfl⟩
      exact .pure ⟨rfl, rfl⟩
  | bool b =>
    have hstart : ∀ c ∈ ((Literal.bool b).display.toList ++ rest).head?,
        isNameStart c = true := by
      cases b <;>
      · rintro _ ⟨⟩
        rfl
    obtain ⟨hdigits, htext⟩ := fails_before_word hstart
    refine .firstOf [floatLiteral, intLiteral, _] ?_ ?_
    · simp only [List.forall_mem_cons, List.not_mem_nil, false_imp_iff, implies_true, and_true]
      exact ⟨.rule (.bind hdigits), .rule (.bind hdigits), .bind htext⟩
    · cases b <;>
      · refine .bind (.rule (scans_wordThat (by decide) hrest.word rfl)) ?_
        rintro _ r ⟨rfl, rfl⟩
        exact .pure ⟨congrArg Literal.bool (by decide), rfl⟩
  | int n =>
    obtain ⟨k, rfl⟩ := Int.eq_ofNat_of_zero_le h
    have hdisplay : (Literal.int k).display.toList = Nat.toDigits 10 k := by
      change (toString k).toList = _
      simp
    rw [hdisplay]
    refine .firstOf [floatLiteral] ?_ ?_
    · simp only [List.forall_mem_cons, List.not_mem_nil, false_imp_iff, implies_true, and_true]
      exact fails_floatLiteral (isDigit_toDigits k) Nat.toDigits_ne_nil hrest
    · refine (scans_intLiteral (isDigit_toDigits k) Nat.toDigits_ne_nil hrest.word).mono ?_
      rintro _ r ⟨rfl, rfl⟩
      exact ⟨by rw [ofDigits_toDigits], rfl⟩
  | float x => cases h
  | text s =>
    have hquoted : (Literal.text s).display.toList =
        '"' :: (s.toList.flatMap Text.escape ++ ['"']) := by
      rw [Literal.display, Text.quoted, String.toList_ofList]
      rfl
    rw [hquoted]
    exact scans_literal_text (decodes_escape h) rest

end TemplateEngine
