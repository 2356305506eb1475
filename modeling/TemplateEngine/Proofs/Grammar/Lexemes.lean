import TemplateEngine.Proofs.Grammar.Matching
import TemplateEngine.Proofs.Spelling.Quotes

/-!
# Words, numbers and quoted text in the grammar

The smallest rules of the grammar go by single characters, and their scanners by the longest text
of a class. A choice of words settles on the first one that begins the text; as no word begins a
later one of the same choice, it matches just where the word that stands here as a whole is one of
them (`matches_word`). What stands between quotes is taken in steps of a character, or of a
backslash and a character, so no backslash is left over at its end (`Matches.whole_of_string`).
-/

namespace TemplateEngine

open Scanner

variable {n : Nat} {m : Mode} {c d : Cursor} {cs : List Char} {x : Char}

/-! ## Texts of a class -/

theorem Cursor.Behind.take {text : List Char} (h : c.Behind text d) :
    c.rest.take (d.offset - c.offset) = text := by
  rw [h.offset, Nat.add_sub_cancel_left, h.rest, List.take_left]

theorem Cursor.drop_drop {s t : List Char} (hs : s <+: c.rest) (ht : t <+: (c.drop s).rest) :
    (c.drop s).drop t = c.drop (s ++ t) :=
  ((Cursor.behind_drop hs).trans (Cursor.behind_drop ht)).eq_drop

theorem Cursor.drop_nil (c : Cursor) : c.drop [] = c := (Cursor.Behind.refl c).eq_drop.symm

/-- Behind the first character. -/
theorem Cursor.rest_drop_one (h : c.rest = x :: cs) : (c.drop [x]).rest = cs := by
  simp [drop, h]

theorem Cursor.drop_one_drop (h : c.rest = x :: cs) {t : List Char} (ht : t <+: cs) :
    (c.drop [x]).drop t = c.drop (x :: t) :=
  drop_drop ⟨cs, h.symm⟩ (by rwa [rest_drop_one h])

/-- Where parts touch, further is what many are. -/
theorem Matches.many_of_further {a : Peg} (hm : m ≠ .spaced) {ps : List Phrase}
    (h : Matches m (.further a) c (some (ps, d))) : Matches m (.many a) c (some (ps, d)) := by
  cases h with
  | further ha hrest =>
    rw [Mode.skip_of_ne hm] at ha
    exact .many ha hrest
  | furtherEnds ha =>
    rw [Mode.skip_of_ne hm] at ha
    exact .manyEnds ha

theorem Matches.char_cons {ok : Char → Bool} (h : c.rest = x :: cs) (hok : ok x = true) :
    Matches m (.char ok) c (some ([], c.drop [x])) := .char (by simp [h]) hok

theorem Matches.noChar_cons {ok : Char → Bool} (h : c.rest = x :: cs) (hok : ok x = false) :
    Matches m (.char ok) c none := .noChar (by simp [h, hok])

theorem Matches.noChar_nil {ok : Char → Bool} (h : c.rest = []) : Matches m (.char ok) c none :=
  .noChar (by simp [h])

/-- Characters of a class are taken as long as there are any, by induction on the rest. -/
theorem matches_many_char (ok : Char → Bool) (c : Cursor) :
    Matches .atomic (.many (.char ok)) c (some ([], c.drop (c.rest.takeWhile ok))) := by
  refine Matches.many_of_further (by decide) ?_
  generalize hrest : c.rest = cs
  induction cs generalizing c with
  | nil =>
    rw [List.takeWhile_nil, c.drop_nil]
    exact .furtherEnds (.noChar_nil hrest)
  | cons x cs ih =>
    cases hok : ok x with
    | true =>
      have hchar : Matches .atomic (.char ok) c (some ([], c.drop [x])) := .char_cons hrest hok
      rw [List.takeWhile_cons_of_pos hok, ← Cursor.drop_one_drop hrest (List.takeWhile_prefix ok)]
      exact .further hchar (ih (c.drop [x]) (Cursor.rest_drop_one hrest))
    | false =>
      rw [List.takeWhile_cons_of_neg (by simp [hok]), c.drop_nil]
      exact .furtherEnds (.noChar_cons hrest hok)

/-- At least one character of a class. -/
theorem matches_oneOrMore_char (ok : Char → Bool) (c : Cursor) :
    Matches .atomic (.oneOrMore (.char ok)) c
      (if c.rest.takeWhile ok = [] then none else some ([], c.drop (c.rest.takeWhile ok))) := by
  cases hrest : c.rest with
  | nil => exact .noFirst (.noChar_nil hrest)
  | cons x cs =>
    cases hok : ok x with
    | true =>
      have hmany := matches_many_char ok (c.drop [x])
      rw [Cursor.rest_drop_one hrest,
        Cursor.drop_one_drop hrest (List.takeWhile_prefix ok)] at hmany
      rw [List.takeWhile_cons_of_pos hok, if_neg (List.cons_ne_nil _ _)]
      exact .seq (.char_cons hrest hok) hmany
    | false =>
      rw [List.takeWhile_cons_of_neg (by simp [hok]), if_pos rfl]
      exact .noFirst (.noChar_cons hrest hok)

/-- The phrase of a rule of single characters. -/
theorem Scanner.Follows.lexeme {α : Type} {p : Scanner α} {r : Rule} {T : List Char → α → Prop}
    (hr : r.kind = .atomic) (hm : m ≠ .atomic)
    (h : Follows n .atomic r.body p fun c ps d x => ps = [] ∧ ∃ text, c.Behind text d ∧ T text x) :
    Follows n m (.rule r) (Scanner.rule p) fun c ps _ x =>
      ∃ text, ps = [⟨r, c.position, text, []⟩] ∧ T text x := by
  refine .rule ?_
  rw [hr]
  refine h.mono ?_
  rintro c _ d x ⟨rfl, text, hbehind, hT⟩
  refine ⟨text, ?_, hT⟩
  simp [Rule.phrases, hr, RuleKind.isKept, hm, hbehind.take]

theorem follows_digits : Follows n .atomic (.oneOrMore (.char Char.isDigit)) digits
    fun c ps d ds => ps = [] ∧ c.Behind ds d ∧ ds ≠ [] ∧ ds.all Char.isDigit = true := by
  intro c _
  have hresult : (digits c).result =
      if c.rest.takeWhile Char.isDigit = [] then none
      else some (c.rest.takeWhile Char.isDigit, c.drop (c.rest.takeWhile Char.isDigit)) := by
    rw [digits, result_bind]
    simp only [Scanner.takeWhile, Option.bind_some, List.isEmpty_iff]
    split <;> rfl
  have hmatches := matches_oneOrMore_char Char.isDigit c
  unfold Reads
  rw [hresult]
  split at hmatches
  · next hnil => exact .inl ⟨if_pos hnil, hmatches⟩
  · next hne =>
    rw [if_neg hne]
    exact .inr ⟨_, _, [], rfl, hmatches, rfl, Cursor.behind_drop (List.takeWhile_prefix _), hne,
      List.all_takeWhile⟩

/-! ## Words -/

/-- A choice of texts settles on the first one that stands here. -/
theorem matches_firstOf_texts (m : Mode) (words : List String) (c : Cursor) :
    ((∀ w ∈ words, ¬w.toList <+: c.rest) ∧ Matches m (.firstOf (words.map .text)) c none) ∨
      ∃ before w after, words = before ++ w :: after ∧ (∀ v ∈ before, ¬v.toList <+: c.rest) ∧
        w.toList <+: c.rest ∧
        Matches m (.firstOf (words.map .text)) c (some ([], c.drop w.toList)) := by
  induction words with
  | nil => exact .inl ⟨nofun, .noChar fun _ _ => rfl⟩
  | cons v words ih =>
    by_cases hv : v.toList <+: c.rest
    · refine .inr ⟨[], v, words, rfl, nofun, hv, ?_⟩
      cases words with
      | nil => exact .text hv
      | cons w words => exact .first (.text hv)
    · have hlater {r : Option (List Phrase × Cursor)}
          (h : Matches m (.firstOf (words.map .text)) c r) :
          Matches m (.firstOf ((v :: words).map .text)) c r := by
        cases words with
        | nil =>
          cases h with
          | char _ hok => cases hok
          | noChar => exact .noText hv
        | cons w words => exact .second (.noText hv) h
      obtain ⟨hnone, h⟩ | ⟨before, w, after, rfl, hbefore, hw, h⟩ := ih
      · exact .inl ⟨List.forall_mem_cons.2 ⟨hv, hnone⟩, hlater h⟩
      · exact .inr ⟨v :: before, w, after, rfl, List.forall_mem_cons.2 ⟨hv, hbefore⟩, hw, hlater h⟩

/-- No word begins a later one, and words are made of the characters of words. -/
structure AreWords (words : List String) : Prop where
  apart : words.Pairwise fun v w => ¬v.toList <+: w.toList
  chars : ∀ w ∈ words, w.toList.all isWordChar = true

theorem areWords_keywords : AreWords keywords where
  apart := by decide +kernel
  chars := by decide +kernel

theorem areWords_reservedWords : AreWords reservedWords where
  apart := by decide +kernel
  chars := by decide +kernel

theorem areWords_booleans : AreWords ["true", "false"] where
  apart := by decide +kernel
  chars := by decide +kernel

theorem areWords_one {w : String} (h : w.toList.all isWordChar = true) : AreWords [w] where
  apart := List.pairwise_singleton _ _
  chars := by simpa using h

/-- The word that stands here as a whole. -/
def Cursor.word (c : Cursor) : List Char := c.rest.takeWhile isWordChar

theorem Cursor.word_begins (c : Cursor) : c.word <+: c.rest := List.takeWhile_prefix _

theorem result_wordThat (wanted : String → Bool) (c : Cursor) :
    (wordThat wanted c).result =
      if wanted (String.ofList c.word) then some (String.ofList c.word, c.drop c.word)
      else none := by
  unfold wordThat Cursor.word
  dsimp only
  split <;> rfl

/-- A word of a choice that stands here is the whole word, or it goes on. -/
theorem Cursor.word_of_begins {w : List Char} (hw : w.all isWordChar = true) {rest : List Char}
    (hrest : c.rest = w ++ rest) :
    (c.word = w ∧ ∀ x ∈ rest.head?, isWordChar x = false) ∨
      ∃ x more, x ∈ rest.head? ∧ isWordChar x = true ∧ c.word = w ++ x :: more := by
  have htake : c.word = w ++ rest.takeWhile isWordChar := by
    rw [word, hrest, List.takeWhile_append_of_pos (List.all_eq_true.1 hw)]
  cases rest with
  | nil => exact .inl ⟨by simpa using htake, nofun⟩
  | cons x rest =>
    cases hx : isWordChar x with
    | true =>
      rw [List.takeWhile_cons_of_pos hx] at htake
      exact .inr ⟨x, _, rfl, hx, htake⟩
    | false =>
      rw [List.takeWhile_cons_of_neg (by simp [hx]), List.append_nil] at htake
      exact .inl ⟨htake, by simpa using hx⟩

/-- A choice of words matches where the whole word is one of them. -/
theorem matches_word {words : List String} (h : AreWords words) (c : Cursor) :
    Matches .atomic (.word words) c
      (if String.ofList c.word ∈ words then some ([], c.drop c.word) else none) := by
  obtain ⟨hnone, hmatches⟩ | ⟨before, w, after, rfl, hbefore, hw, hmatches⟩ :=
    matches_firstOf_texts .atomic words c
  · have hnot : String.ofList c.word ∉ words :=
      fun hmem => hnone _ hmem (String.toList_ofList ▸ c.word_begins)
    rw [if_neg hnot]
    exact .noFirst hmatches
  · have hmem : w ∈ before ++ w :: after := by simp
    have hbehind := Cursor.behind_drop hw
    obtain ⟨hword, hend⟩ | ⟨x, more, hx, hok, hword⟩ :=
      Cursor.word_of_begins (h.chars w hmem) hbehind.rest
    · rw [hword, String.ofList_toList, if_pos hmem]
      exact .seq hmatches (.notAhead (.noChar hend))
    · -- the word goes on, so it is a longer one, and the choice has no longer one that follows
      have hlonger : w.toList <+: c.word := hword ▸ List.prefix_append _ _
      have hnot : String.ofList c.word ∉ before ++ w :: after := by
        intro hlong
        obtain hlong | hlong | hlong := by simpa using hlong
        · exact hbefore _ hlong (String.toList_ofList ▸ c.word_begins)
        · have hlength := congrArg (fun v => v.toList.length) hlong
          simp [hword] at hlength
        · have hapart := (List.pairwise_append.1 h.apart).2.1
          exact (List.pairwise_cons.1 hapart).1 _ hlong (String.toList_ofList ▸ hlonger)
      rw [if_neg hnot]
      exact .noSecond hmatches (.someAhead (.char hx hok))

/-- A word of a choice. -/
theorem follows_word {words : List String} (h : AreWords words) {wanted : String → Bool}
    (hwanted : ∀ w, wanted w = true ↔ w ∈ words) :
    Follows n .atomic (.word words) (wordThat wanted)
      fun c ps d w => ps = [] ∧ ∃ text, c.Behind text d ∧ text = w.toList ∧ w ∈ words := by
  intro c _
  have hmatches := matches_word h c
  unfold Reads
  rw [result_wordThat]
  simp only [hwanted]
  split at hmatches
  · next hmem =>
    rw [if_pos hmem]
    exact .inr ⟨_, _, [], rfl, hmatches, rfl, _, Cursor.behind_drop c.word_begins,
      String.toList_ofList.symm, hmem⟩
  · next hnot => exact .inl ⟨if_neg hnot, hmatches⟩

/-- Where a text stands that does not begin with a gap, nothing is skipped. -/
theorem Mode.skip_of_begins {text : List Char} (h : text.head?.any (fun x => !isGap x) = true)
    (hbegins : text <+: c.rest) (m : Mode) : m.skip c = c := by
  cases m with
  | close | atomic => rfl
  | spaced =>
    obtain ⟨rest, hrest⟩ := hbegins
    cases text with
    | nil => cases h
    | cons x xs =>
      have hx : isGap x = false := by simpa using h
      have hnone : c.rest.takeWhile isGap = [] := by simp [← hrest, hx]
      rw [skip, hnone, c.drop_nil]

/-- A keyword where the text begins with the stem. -/
theorem follows_keyword {stem : String} (h : stem.toList.head?.any (fun x => !isGap x) = true) :
    Follows n .spaced (.keyword stem) (keyword stem)
      fun _ ps _ _ => ∃ p text, ps = [⟨.keyword, p, text, []⟩] := by
  intro c hc
  have hkeyword : Follows n .spaced (.rule .keyword)
      (Scanner.rule (wordThat keywords.contains) >>= fun _ => pure ())
      fun _ ps _ _ => ∃ p text, ps = [⟨.keyword, p, text, []⟩] :=
    (Follows.lexeme rfl (by decide) (follows_word areWords_keywords
      fun _ => List.contains_iff_mem)).map fun c _ _ _ ⟨text, hps, _⟩ => ⟨c.position, text, hps⟩
  have hresult : (keyword stem c).result =
      if stem.toList <+: c.rest then
        ((Scanner.rule (wordThat keywords.contains) >>= fun _ => pure ()) c).result
      else none := by
    unfold keyword
    simp only [List.isPrefixOf_iff_prefix]
    split <;> rfl
  unfold Reads
  rw [hresult]
  by_cases hstem : stem.toList <+: c.rest
  · -- a stem does not begin with a gap, so nothing is skipped in front of the keyword
    have hskip := Mode.skip_of_begins h hstem .spaced
    rw [if_pos hstem]
    obtain ⟨hp, ha⟩ | ⟨x, d, ps, hp, ha, hps⟩ := hkeyword c hc
    · exact .inl ⟨hp, .noSecond (.ahead (.text hstem)) (hskip.symm ▸ ha)⟩
    · exact .inr ⟨x, d, ps, hp, .seq (.ahead (.text hstem)) (hskip.symm ▸ ha), hps⟩
  · rw [if_neg hstem]
    exact .inl ⟨rfl, .noFirst (.noneAhead (.noText hstem))⟩

/-- The pattern of names matches where the whole word is a name. -/
theorem matches_identifier (c : Cursor) :
    Matches .atomic Rule.identifier.body c
      (if isName (String.ofList c.word) then some ([], c.drop c.word) else none) := by
  have hreserved := matches_word areWords_reservedWords c
  split at hreserved
  · next hmem =>
    rw [if_neg (by simp [isName, hmem])]
    exact .noFirst (.someAhead (.rule hreserved))
  · next hnot =>
    have hfree : Matches .atomic (.notAhead (.rule .reserved)) c (some ([], c)) :=
      .notAhead (.noRule hreserved)
    cases hrest : c.rest with
    | nil =>
      rw [if_neg (by simp [isName, Cursor.word, hrest])]
      exact .noSecond hfree (.noFirst (.noChar_nil hrest))
    | cons x cs =>
      cases hx : isNameStart x with
      | true =>
        have hword : c.word = x :: cs.takeWhile isWordChar := by
          rw [Cursor.word, hrest, List.takeWhile_cons_of_pos (isWordChar_of_isNameStart hx)]
        have hmany := matches_many_char isWordChar (c.drop [x])
        rw [Cursor.rest_drop_one hrest, Cursor.drop_one_drop hrest (List.takeWhile_prefix _),
          ← hword] at hmany
        have hhead : c.word.head? = some x := by rw [hword, List.head?_cons]
        rw [if_pos (by simp [isName, hnot, hhead, hx])]
        exact .seq hfree (.seq (.char_cons hrest hx) hmany)
      | false =>
        have hhead : c.word.head?.any isNameStart = false := by
          rw [Cursor.word, hrest, List.takeWhile_cons]
          split <;> simp [hx]
        rw [if_neg (by simp [isName, hhead])]
        exact .noSecond hfree (.noFirst (.noChar_cons hrest hx))

/-- A name: the word that stands here, unless it is reserved or begins with a digit. -/
theorem follows_identifier (hm : m ≠ .atomic) :
    Follows n m (.rule .identifier) identifier
      fun c ps _ name => ps = [⟨.identifier, c.position, name.toList, []⟩] := by
  have hname : Follows n .atomic Rule.identifier.body (wordThat isName)
      fun c ps d name => ps = [] ∧ ∃ text, c.Behind text d ∧ text = name.toList := by
    intro c _
    have hmatches := matches_identifier c
    unfold Reads
    rw [result_wordThat]
    split at hmatches
    · next hname =>
      rw [if_pos hname]
      exact .inr ⟨_, _, [], rfl, hmatches, rfl, _, Cursor.behind_drop c.word_begins,
        String.toList_ofList.symm⟩
    · next hnot => exact .inl ⟨if_neg hnot, hmatches⟩
  refine (Follows.lexeme rfl hm hname).mono ?_
  rintro c ps d name ⟨text, rfl, rfl⟩
  rfl

/-! ## Quoted text -/

/-- The quote as a text. -/
def Quote.mark : Quote → String
  | .double => "\""
  | .single => "'"

/-- The rule of what stands between quotes of the kind. -/
def Quote.rule : Quote → Rule
  | .double => .doubleChars
  | .single => .singleChars

/-- The pattern of a text in quotes of the kind. -/
def Quote.pattern (q : Quote) : Peg := .row [.text q.mark, .rule q.rule, .text q.mark]

theorem Quote.toList_mark (q : Quote) : q.mark.toList = [q.char] := by
  cases q <;> rfl

theorem Quote.body_rule (q : Quote) : q.rule.body = .quoted q.mark := by
  cases q <;> rfl

theorem Quote.kind_rule (q : Quote) : q.rule.kind = .atomic := by
  cases q <;> rfl

theorem Matches.mark {s : String} (hs : s.toList = [x]) (h : c.rest = x :: cs) :
    Matches m (.text s) c (some ([], c.drop [x])) := by
  rw [← hs]
  exact .text ⟨cs, by rw [hs, h]; rfl⟩

theorem Matches.noMark {s : String} (hs : s.toList = [x]) (h : ∀ y ∈ c.rest.head?, y ≠ x) :
    Matches m (.text s) c none := by
  refine .noText fun ⟨rest, hrest⟩ => h x ?_ rfl
  rw [← hrest, hs]
  rfl

/-- A character between quotes of the kind, or a backslash and a character. -/
def Quote.step (q : Quote) : Peg :=
  .choice (.seq (.text "\\") .any)
    (.seq (.notAhead (.choice (.text q.mark) (.text "\\"))) .any)

theorem Quote.quoted_mark (q : Quote) : .quoted q.mark = Peg.many q.step := rfl

theorem toList_backslash : ("\\" : String).toList = ['\\'] := rfl

/-- A backslash takes the next character with it. -/
theorem matches_step_escape (q : Quote) (h : c.rest = '\\' :: x :: cs) :
    Matches .atomic q.step c (some ([], (c.drop ['\\']).drop [x])) :=
  .first (.seq (.mark toList_backslash h) (.char_cons (Cursor.rest_drop_one h) rfl))

/-- Any other character is taken alone, but for quotes of the kind. -/
theorem matches_step_plain (q : Quote) (h : c.rest = x :: cs) (hquote : x ≠ q.char)
    (hslash : x ≠ '\\') : Matches .atomic q.step c (some ([], c.drop [x])) := by
  have hno (y : Char) (hy : x ≠ y) : ∀ z ∈ c.rest.head?, z ≠ y := by simpa [h] using hy
  have hnoQuote : Matches .atomic (.text q.mark) c none := .noMark q.toList_mark (hno _ hquote)
  have hnoSlash : Matches .atomic (.text "\\") c none := .noMark toList_backslash (hno _ hslash)
  exact .second (.noFirst hnoSlash)
    (.seq (.notAhead (.second hnoQuote hnoSlash)) (.char_cons h rfl))

/-- At the end nothing is taken. -/
theorem matches_step_nil (q : Quote) (h : c.rest = []) : Matches .atomic q.step c none := by
  have hno {s : String} {y : Char} (hs : s.toList = [y]) : Matches .atomic (.text s) c none :=
    .noMark hs (by simp [h])
  exact .second (.noFirst (hno toList_backslash)) (.noSecond
    (.notAhead (.second (hno q.toList_mark) (hno toList_backslash))) (.noChar_nil h))

/-- A quote of the kind is not taken, and neither is a backslash with nothing behind it. -/
theorem matches_step_end (q : Quote) (h : c.rest = x :: cs)
    (hend : x = q.char ∨ x = '\\' ∧ cs = []) : Matches .atomic q.step c none := by
  obtain rfl | ⟨rfl, rfl⟩ := hend
  · have hno : ∀ y ∈ c.rest.head?, y ≠ '\\' := by simpa [h] using q.char_ne_backslash
    exact .second (.noFirst (.noMark toList_backslash hno))
      (.noFirst (.someAhead (.first (.mark q.toList_mark h))))
  · have hno : ∀ y ∈ c.rest.head?, y ≠ q.char := by simpa [h] using q.char_ne_backslash.symm
    exact .second (.noSecond (.mark toList_backslash h) (.noChar_nil (Cursor.rest_drop_one h)))
      (.noFirst (.someAhead (.second (.noMark q.toList_mark hno) (.mark toList_backslash h))))

/-- What stands between quotes is taken up to the first quote of its kind that no backslash takes
with it, by the steps in which that quote is looked for. -/
theorem matches_quoted (q : Quote) (c : Cursor) :
    Matches .atomic (.quoted q.mark) c (some ([], c.drop (quotedBody q.char c.rest))) := by
  rw [q.quoted_mark]
  refine Matches.many_of_further (by decide) ?_
  generalize hrest : c.rest = cs
  fun_induction quotedBody q.char cs generalizing c with
  | case1 =>
    rw [c.drop_nil]
    exact .furtherEnds (matches_step_nil q hrest)
  | case2 x rest ih =>
    have hnext := Cursor.rest_drop_one hrest
    have hbody : quotedBody q.char rest <+: rest := quotedBody_begins q.char rest
    rw [← Cursor.drop_one_drop hrest ((List.prefix_cons_inj x).2 hbody),
      ← Cursor.drop_one_drop hnext hbody]
    exact .further (matches_step_escape q hrest) (ih _ (Cursor.rest_drop_one hnext))
  | case3 x rest hlone hend =>
    have hstops : x = q.char ∨ x = '\\' ∧ rest = [] := by
      obtain hquote | rfl : x = q.char ∨ x = '\\' := by simpa using hend
      · exact .inl hquote
      · -- nothing is left behind the backslash
        cases rest with
        | nil => exact .inr ⟨rfl, rfl⟩
        | cons y rest => exact absurd rfl (hlone y rest rfl)
    rw [c.drop_nil]
    exact .furtherEnds (matches_step_end q hrest hstops)
  | case4 x rest hlone hend ih =>
    obtain ⟨hquote, hslash⟩ : x ≠ q.char ∧ x ≠ '\\' := by simpa using hend
    rw [← Cursor.drop_one_drop hrest (quotedBody_begins q.char rest)]
    exact .further (matches_step_plain q hrest hquote hslash) (ih _ (Cursor.rest_drop_one hrest))

/-- A backslash is left over at the end, where a backslash takes the next character with it. -/
def dangles : List Char → Bool
  | [] => false
  | ['\\'] => true
  | '\\' :: _ :: rest => dangles rest
  | _ :: rest => dangles rest

theorem dangles_quotedBody (quote : Char) (text : List Char) :
    dangles (quotedBody quote text) = false := by
  fun_induction quotedBody quote text with
  | case1 | case3 => rfl
  | case2 x rest ih => exact ih
  | case4 x rest _ hend ih =>
    have hx : x ≠ '\\' := by
      rintro rfl
      simp at hend
    rw [dangles]
    · exact ih
    · exact fun h _ => hx h
    · exact fun _ _ h _ => hx h

/-- The phrase of what stands between quotes. -/
theorem matches_rule_quote (q : Quote) (c : Cursor) :
    Matches .close (.rule q.rule) c
      (some ([⟨q.rule, c.position, quotedBody q.char c.rest, []⟩],
        c.drop (quotedBody q.char c.rest))) := by
  have hmatches := matches_quoted q c
  have hbehind := Cursor.behind_drop (quotedBody_begins q.char c.rest)
  rw [← q.body_rule] at hmatches
  have hinside : q.rule.kind.inside .close = .atomic := by rw [q.kind_rule]; rfl
  have hphrases : q.rule.phrases .close c (c.drop (quotedBody q.char c.rest)) [] =
      [⟨q.rule, c.position, quotedBody q.char c.rest, []⟩] := by
    simp [Rule.phrases, q.kind_rule, RuleKind.isKept, hbehind.take]
  rw [← hphrases]
  exact .rule (hinside.symm ▸ hmatches)

/-- Behind an opening quote a text is read if a quote of its kind stands behind the body. -/
theorem result_quotedBy {q : Quote} (h : c.rest = q.char :: cs) :
    (quotedBy q.char c).result =
      if (cs.drop (quotedBody q.char cs).length).head? = some q.char then
        some (String.ofList (unescape (quotedBody q.char cs)),
          c.drop (q.char :: quotedBody q.char cs ++ [q.char]))
      else none := by
  unfold quotedBy
  rw [h]
  dsimp only
  rw [if_pos rfl]
  split <;> rfl

/-- A text in quotes of one kind. -/
theorem follows_quotedBy (q : Quote) : Follows n .close q.pattern (quotedBy q.char)
    fun _ ps _ s => ∃ position body, ps = [⟨q.rule, position, body, []⟩] ∧
      dangles body = false ∧ s = String.ofList (unescape body) := by
  intro c _
  by_cases hopens : c.rest.head? = some q.char
  · obtain ⟨rest, hrest⟩ := List.head?_eq_some_iff.1 hopens
    have hopen : Matches .close (.text q.mark) c (some ([], c.drop [q.char])) :=
      .mark q.toList_mark hrest
    have hbody := quotedBody_begins q.char rest
    have hinner := matches_rule_quote q (c.drop [q.char])
    rw [Cursor.rest_drop_one hrest, Cursor.drop_one_drop hrest hbody] at hinner
    have hleft : (c.drop (q.char :: quotedBody q.char rest)).rest =
        rest.drop (quotedBody q.char rest).length := by
      simp [Cursor.drop, hrest]
    have hresult := result_quotedBy hrest
    split at hresult
    · next hclosed =>
      obtain ⟨more, hmore⟩ := List.head?_eq_some_iff.1 (hleft ▸ hclosed)
      have hwhole : q.char :: quotedBody q.char rest <+: c.rest :=
        hrest ▸ (List.prefix_cons_inj _).2 hbody
      have hclose : Matches .close (.text q.mark) (c.drop (q.char :: quotedBody q.char rest))
          (some ([], c.drop (q.char :: quotedBody q.char rest ++ [q.char]))) := by
        rw [← Cursor.drop_drop hwhole ⟨more, hmore.symm⟩]
        exact .mark q.toList_mark hmore
      exact .inr ⟨_, _, _, hresult, .seq hopen (.seq hinner hclose), _, _, rfl,
        dangles_quotedBody _ _, rfl⟩
    · next hclosed =>
      refine .inl ⟨hresult, .noSecond hopen (.noSecond hinner (.noMark q.toList_mark ?_))⟩
      rintro y hy rfl
      exact hclosed (hleft ▸ hy)
  · have hother : ∀ y ∈ c.rest.head?, y ≠ q.char := by
      rintro y hy rfl
      exact hopens hy
    exact .inl ⟨quotedBy_eq_none hother, .noFirst (.noMark q.toList_mark hother)⟩

/-- A quoted text has one part, which is what stands between the quotes. -/
theorem follows_stringLiteral : Follows n m (.rule .string) stringLiteral
    fun c ps _ s => ∃ text q position body,
      ps = [⟨.string, c.position, text, [⟨Quote.rule q, position, body, []⟩]⟩] ∧
        dangles body = false ∧ s = String.ofList (unescape body) := by
  have hquoted (q : Quote) : Follows n (Rule.string.kind.inside m) q.pattern (quotedBy q.char)
      fun c ps d s => ∃ text q position body,
        Rule.string.phrases m c d ps =
          [⟨.string, c.position, text, [⟨Quote.rule q, position, body, []⟩]⟩] ∧
        dangles body = false ∧ s = String.ofList (unescape body) := by
    refine (follows_quotedBy q).mono ?_
    rintro c _ d _ ⟨position, body, rfl, hdangles, rfl⟩
    exact ⟨_, q, position, body, rfl, hdangles, rfl⟩
  exact .rule (.orElse (hquoted .double) (hquoted .single))

/-- What stands between the quotes of a matched text is whole: no backslash is left over at its
end. -/
theorem Matches.whole_of_string {ps : List Phrase}
    (h : Matches m (.rule .string) c (some (ps, d))) :
    ∃ p body, ps = [p] ∧ p.parts = [body] ∧ dangles body.lexeme = false := by
  obtain ⟨-, hnone⟩ | ⟨s, d', qs, -, hmatches, text, q, position, body, rfl, hdangles, -⟩ :=
    follows_stringLiteral c (Nat.lt_succ_self _)
  · cases h.unique hnone
  · cases h.unique hmatches
    exact ⟨_, _, rfl, rfl, hdangles⟩

end TemplateEngine
