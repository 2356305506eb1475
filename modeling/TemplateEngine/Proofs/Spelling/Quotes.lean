import TemplateEngine.Proofs.Spelling.Cursors

/-!
# Quoted text

Between two quotes of a kind every backslash takes the next character with it, and no other
backslash and no other quote of that kind stands there. What such a body writes is told character
by character (`Decodes`). A quoted text is read exactly where such a body stands between quotes,
and it is what the body writes (`reads_stringLiteral_iff`); so looking for the closing quote and
undoing the backslashes agree on where every escape begins.
-/

namespace TemplateEngine

open Scanner

/-- The kinds of quotes. -/
inductive Quote
  | double
  | single
deriving DecidableEq

/-- The character of the quote. -/
def Quote.char : Quote → Char
  | .double => '"'
  | .single => '\''

theorem Quote.char_ne_backslash (q : Quote) : q.char ≠ '\\' := by
  cases q <;> decide

/-- The character that a character behind a backslash stands for. -/
def escaped : Char → Char
  | 'n' => '\n'
  | 't' => '\t'
  | 'r' => '\r'
  | '0' => '\x00'
  | c => c

/-- The characters between quotes of the kind write the other characters. -/
inductive Decodes (q : Quote) : List Char → List Char → Prop
  | nil : Decodes q [] []
  | plain {c : Char} {body text : List Char} :
    c ≠ q.char → c ≠ '\\' → Decodes q body text → Decodes q (c :: body) (c :: text)
  | escape (c : Char) {body text : List Char} :
    Decodes q body text → Decodes q ('\\' :: c :: body) (escaped c :: text)

/-! ## Bodies -/

variable {q : Quote} {body text : List Char}

theorem unescape_backslash (c : Char) (rest : List Char) :
    unescape ('\\' :: c :: rest) = escaped c :: unescape rest := by
  rw [unescape]
  congr 1
  symm
  unfold escaped
  split
  · rfl
  · rfl
  · rfl
  · rfl
  · next hn ht hr hzero => rw [if_neg hn, if_neg ht, if_neg hr, if_neg hzero]

/-- What is taken for a body is one. -/
theorem decodes_quotedBody (q : Quote) (cs : List Char) :
    Decodes q (quotedBody q.char cs) (unescape (quotedBody q.char cs)) := by
  fun_induction quotedBody q.char cs with
  | case1 => exact .nil
  | case2 c rest ih =>
    rw [unescape_backslash]
    exact .escape c ih
  | case3 => exact .nil
  | case4 c rest _ hc ih =>
    obtain ⟨hquote, hslash⟩ : c ≠ q.char ∧ c ≠ '\\' := by simpa using hc
    rw [unescape.eq_3 _ _ fun _ _ h _ => hslash h]
    exact .plain hquote hslash ih

/-- The closing quote is found behind the body, whatever follows. -/
theorem Decodes.quotedBody_append (h : Decodes q body text) (rest : List Char) :
    quotedBody q.char (body ++ q.char :: rest) = body := by
  induction h with
  | nil =>
    rw [List.nil_append, quotedBody.eq_3 _ _ _ fun _ _ h _ => q.char_ne_backslash h]
    simp
  | plain hquote hslash _ ih =>
    rw [List.cons_append, quotedBody.eq_3 _ _ _ fun _ _ h _ => hslash h, ih]
    simp [hquote, hslash]
  | escape c _ ih => rw [List.cons_append, List.cons_append, quotedBody, ih]

/-- A body writes one text only. -/
theorem Decodes.unescape_eq (h : Decodes q body text) : unescape body = text := by
  induction h with
  | nil => rfl
  | plain _ hslash _ ih => rw [unescape.eq_3 _ _ fun _ _ h _ => hslash h, ih]
  | escape c _ ih => rw [unescape_backslash, ih]

/-! ## Literals -/

variable {c d : Cursor} {s : String}

theorem Cursor.Behind.eq_drop {text : List Char} (h : c.Behind text d) : d = c.drop text := by
  obtain ⟨rest, offset, position⟩ := d
  obtain ⟨hrest, hoffset, hposition⟩ := h
  dsimp only at hrest hoffset hposition
  rw [Cursor.drop, hrest, List.drop_left, hoffset, hposition]

theorem reads_quotedBy_iff : (quotedBy q.char).Reads c s d ↔
    ∃ body, Decodes q body s.toList ∧ c.Behind (q.char :: (body ++ [q.char])) d := by
  constructor
  · intro h
    unfold Reads quotedBy at h
    split at h
    · cases h
    · next first rest hrest =>
      split at h
      · next hfirst =>
        subst hfirst
        dsimp only at h
        split at h
        · next hclosed =>
          cases h
          have hdecodes := decodes_quotedBody q rest
          have hbody := quotedBody_begins q.char rest
          generalize quotedBody q.char rest = body at hdecodes hbody hclosed ⊢
          obtain ⟨after, rfl⟩ := hbody
          rw [List.drop_left] at hclosed
          obtain ⟨more, rfl⟩ := List.head?_eq_some_iff.1 hclosed
          refine ⟨body, ?_, Cursor.behind_drop ⟨more, by simp [hrest]⟩⟩
          rwa [String.toList_ofList]
        · cases h
      · cases h
  · rintro ⟨body, hbody, hbehind⟩
    have hrest : c.rest = q.char :: (body ++ q.char :: d.rest) := by simpa using hbehind.rest
    unfold Reads quotedBy
    rw [hrest]
    dsimp only
    rw [if_pos rfl, hbody.quotedBody_append, List.drop_left, if_pos List.head?_cons,
      hbody.unescape_eq, String.ofList_toList, hbehind.eq_drop]
    rfl

/-- Before other characters no quoted text of the kind begins. -/
theorem quotedBy_eq_none {quote : Char} (h : ∀ x ∈ c.rest.head?, x ≠ quote) :
    (quotedBy quote c).result = none := by
  unfold quotedBy
  cases hrest : c.rest with
  | nil => rfl
  | cons x rest =>
    rw [hrest] at h
    exact congrArg Attempt.result (if_neg (h x rfl))

/-- A quoted text is read where a body stands between quotes of one kind, and it is the text that
the body writes. -/
theorem reads_stringLiteral_iff : stringLiteral.Reads c s d ↔
    ∃ q body, Decodes q body s.toList ∧ c.Behind (q.char :: (body ++ [q.char])) d := by
  unfold stringLiteral
  rw [reads_rule, reads_orElse]
  constructor
  · rintro (h | ⟨-, h⟩)
    · exact ⟨.double, reads_quotedBy_iff.1 h⟩
    · exact ⟨.single, reads_quotedBy_iff.1 h⟩
  · rintro ⟨q, h⟩
    cases q with
    | double => exact .inl (reads_quotedBy_iff.2 h)
    | single =>
      refine .inr ⟨quotedBy_eq_none ?_, reads_quotedBy_iff.2 h⟩
      obtain ⟨body, -, hbehind⟩ := h
      rw [hbehind.rest]
      rintro _ ⟨⟩
      decide

end TemplateEngine
