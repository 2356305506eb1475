import TemplateEngine.Proofs.Grammar.Lexemes
import TemplateEngine.Proofs.Grammar.Meaning
import TemplateEngine.Proofs.Numbers.Conversion

/-!
# Expressions in the grammar

Each scanner of expressions follows its rule, and the phrases that the rule leaves stand for what
is read. What is built of the phrase of a constant is the constant that is read there: digits with a
point between them always write a float (`Reading.float?_digits`), and digits alone write an integer
unless they are more than the greatest one. Rules that contain expressions take a character first,
so an expression follows its rule where one more character is left than for the expressions in it
(`follows_expression`).
-/

namespace TemplateEngine

open Scanner

variable {n : Nat}

/-! ## Numbers -/

section

variable {ds whole fraction : List Char}

/-- Digits alone are an integer if one can hold the number. -/
theorem Integer.read?_digits (hne : ds ≠ []) (hds : ds.all Char.isDigit = true) :
    read? ds = fit? (ofDigits ds) :=
  DecimalText.read?_body ⟨[], none, ds, [], nofun, hne, hds, nofun⟩

/-- A digit is no sign. -/
theorem Reading.float?_of_isDigit {x : Char} (hx : x.isDigit = true) (rest : List Char) :
    float? (x :: rest) = unsigned? (x :: rest) := by
  unfold float?
  split
  · next h =>
    cases h
    cases hx
  · next h =>
    cases h
    cases hx
  · rfl

/-- A digit begins no word. -/
theorem Reading.ne_word_of_isDigit {x y : Char} (hx : x.isDigit = true) (hy : y.isDigit = false)
    (rest word : List Char) : (x :: rest).map Char.toLower ≠ y :: word := by
  intro h
  rw [List.map_cons, toLower_of_isDigit hx] at h
  obtain rfl : x = y := (List.cons.inj h).1
  rw [hx] at hy
  cases hy

/-- Digits with a point between them are a float. -/
theorem Reading.float?_digits (hne : whole ≠ []) (hwhole : whole.all Char.isDigit = true)
    (hfraction : fraction.all Char.isDigit = true) :
    float? (whole ++ '.' :: fraction) =
      some (nearest (Integer.ofDigits (whole ++ fraction)) (-(fraction.length : Int))) := by
  obtain ⟨x, xs, rfl⟩ := List.exists_cons_of_ne_nil hne
  rw [List.all_eq_true] at hwhole hfraction
  have hx : x.isDigit = true := hwhole x List.mem_cons_self
  have htake : (x :: xs ++ '.' :: fraction).takeWhile Char.isDigit = x :: xs := by
    rw [List.takeWhile_append_of_pos hwhole, List.takeWhile_cons_of_neg (by decide),
      List.append_nil]
  have hdrop : (x :: xs ++ '.' :: fraction).dropWhile Char.isDigit = '.' :: fraction := by
    rw [List.dropWhile_append_of_pos hwhole, List.dropWhile_cons_of_neg (by decide)]
  have htakeRest : fraction.takeWhile Char.isDigit = fraction :=
    List.takeWhile_eq_self_iff.2 hfraction
  have hdropRest : fraction.dropWhile Char.isDigit = [] := List.dropWhile_eq_nil_iff.2 hfraction
  have hnan : (x :: xs ++ '.' :: fraction).map Char.toLower ≠ "nan".toList :=
    ne_word_of_isDigit hx (y := 'n') rfl _ _
  have hinf : ¬(decide ((x :: xs ++ '.' :: fraction).map Char.toLower = "inf".toList) ||
      decide ((x :: xs ++ '.' :: fraction).map Char.toLower = "infinity".toList)) = true := by
    rw [Bool.or_eq_true, decide_eq_true_iff, decide_eq_true_iff, not_or]
    exact ⟨ne_word_of_isDigit hx (y := 'i') rfl _ _, ne_word_of_isDigit hx (y := 'i') rfl _ _⟩
  rw [List.cons_append, float?_of_isDigit hx, ← List.cons_append, unsigned?]
  simp only [htake, hdrop, htakeRest, hdropRest, power?, Option.map_some]
  rw [if_neg hinf, if_neg hnan, if_neg (by simp), Int.zero_sub]

theorem firstOversized?_int (p : Position) (ds : List Char) :
    firstOversized? [⟨.int, p, ds, []⟩] =
      if Integer.Fits (Integer.ofDigits ds) then none else some p := by
  have hfits : Integer.Fits (Integer.ofDigits ds) ↔
      ¬Integer.greatest < Integer.ofDigits ds := by
    simp only [Integer.Fits, Integer.least, Integer.greatest]
    omega
  rw [firstOversized?, phrasesIn_singleton]
  simp only [phrasesIn, List.find?_singleton, Phrase.Oversized, hfits]
  split <;> simp_all

end

/-- A quoted text has no integers in it. -/
theorem firstOversized?_string (p : Position) (text : List Char) (q : Quote) (position : Position)
    (body : List Char) :
    firstOversized? [⟨.string, p, text, [⟨q.rule, position, body, []⟩]⟩] = none := by
  have hbody : firstOversized? [⟨q.rule, position, body, []⟩] = none :=
    firstOversized?_of_ne q.rule (by cases q <;> decide) rfl
  rw [firstOversized?_of_ne .string (by decide) rfl, hbody]

/-- The phrase stands for the constant. -/
def IsLiteral (position : Position) (ps : List Phrase) (value : Literal) : Prop :=
  ∃ p, ps = [p] ∧ IsPrimary p (.literal value position)

theorem follows_floatLiteral : Follows n .spaced (.rule .float) floatLiteral
    fun c ps _ value => IsLiteral c.position ps value := by
  have hbody : Follows n .atomic Rule.float.body (do
      let whole ← digits
      Scanner.exactly "."
      let fraction ← digits
      pure (Literal.float (Reading.nearest (Integer.ofDigits (whole ++ fraction))
        (-(fraction.length : Int)))))
      fun c ps d value => ps = [] ∧ ∃ text, c.Behind text d ∧
        ∃ x, Reading.float? text = some x ∧ value = .float x := by
    refine Follows.touch (by decide) follows_digits ?_
    rintro c _ d whole ⟨rfl, hwhole, hne, hdigits⟩
    refine Follows.touch (by decide) (Follows.exactly ".") ?_
    rintro c' _ d' _ ⟨rfl, hpoint⟩
    refine Follows.map follows_digits ?_
    rintro c'' _ d'' fraction ⟨rfl, hfraction, -, hmore⟩ rfl rfl
    refine ⟨rfl, whole ++ '.' :: fraction, ?_, _, Reading.float?_digits hne hdigits hmore, rfl⟩
    have hbehind := (hwhole.trans hpoint).trans hfraction
    rwa [List.append_assoc] at hbehind
  refine (Follows.lexeme rfl (by decide) hbody).mono ?_
  rintro c _ d _ ⟨text, rfl, x, hx, rfl⟩
  refine ⟨_, rfl, fun bounded => ?_, firstOversized?_of_ne .float (by decide) rfl⟩
  rw [Phrase.toPrimary, hx]
  cases bounded <;> rfl

theorem follows_intLiteral : Follows n .spaced (.rule .int) intLiteral
    fun c ps _ value => IsLiteral c.position ps value := by
  have hbody : Follows n .atomic Rule.int.body
      (digits >>= fun ds => pure (Literal.int (Integer.ofDigits ds)))
      fun c ps d value => ps = [] ∧ ∃ text, c.Behind text d ∧
        text ≠ [] ∧ text.all Char.isDigit = true ∧ value = .int (Integer.ofDigits text) :=
    Follows.map follows_digits fun c ps d ds ⟨hps, hbehind, hne, hds⟩ =>
      ⟨hps, ds, hbehind, hne, hds, rfl⟩
  refine (Follows.lexeme rfl (by decide) hbody).mono ?_
  rintro c _ d _ ⟨ds, rfl, hne, hds, rfl⟩
  refine ⟨_, rfl, fun bounded => ?_, firstOversized?_int c.position ds⟩
  rw [Phrase.toPrimary, integerOf?, Integer.read?_digits hne hds, Integer.fit?, Expr.oversized?]
  cases bounded with
  | false => rfl
  | true =>
    by_cases hfits : Integer.Fits (Integer.ofDigits ds)
    · rw [if_pos rfl, if_pos hfits, if_pos hfits]
      rfl
    · rw [if_pos rfl, if_neg hfits, if_neg hfits]
      rfl

theorem follows_textLiteral : Follows n .spaced (.rule .string)
    (stringLiteral >>= fun s => pure (Literal.text s))
    fun c ps _ value => IsLiteral c.position ps value := by
  refine follows_stringLiteral.map ?_
  rintro c _ d s ⟨text, q, position, body, rfl, -, rfl⟩
  refine ⟨_, rfl, fun bounded => ?_, firstOversized?_string ..⟩
  rw [Phrase.toPrimary]
  cases bounded <;> rfl

theorem follows_boolean : Follows n .spaced (.rule .boolean)
    (rule (wordThat fun w => w = "true" || w = "false") >>= fun w =>
      pure (Literal.bool (w = "true")))
    fun c ps _ value => IsLiteral c.position ps value := by
  have hwords : ∀ w : String, (decide (w = "true") || decide (w = "false")) = true ↔
      w ∈ ["true", "false"] := by simp
  have hword := Follows.lexeme (n := n) (m := .spaced) (r := .boolean) rfl (by decide)
    (follows_word areWords_booleans hwords)
  refine hword.map ?_
  rintro c _ d w ⟨text, rfl, rfl, -⟩
  refine ⟨_, rfl, fun bounded => ?_, firstOversized?_of_ne .boolean (by decide) rfl⟩
  rw [Phrase.toPrimary, String.ofList_toList]
  cases bounded <;> rfl

theorem follows_null : Follows n .spaced (.rule .null)
    (rule (wordThat (· = "null")) >>= fun _ => pure Literal.null)
    fun c ps _ value => IsLiteral c.position ps value := by
  have hwords : ∀ w : String, decide (w = "null") = true ↔ w ∈ ["null"] := by simp
  have hword := Follows.lexeme (n := n) (m := .spaced) (r := .null) rfl (by decide)
    (follows_word (areWords_one (by decide +kernel)) hwords)
  refine hword.map ?_
  rintro c _ d w ⟨text, rfl, -⟩
  refine ⟨_, rfl, fun bounded => ?_, firstOversized?_of_ne .null (by decide) rfl⟩
  rw [Phrase.toPrimary]
  cases bounded <;> rfl

/-- A constant. -/
theorem follows_literal : Follows n .spaced .literal literal
    fun c ps _ value => IsLiteral c.position ps value :=
  .more follows_floatLiteral <| .more follows_intLiteral <| .more follows_textLiteral <|
    .more follows_boolean <| .one follows_null

variable {m : Mode}

/-! ## Rows of phrases -/

namespace Scanner.Follows

variable {α : Type} {a : Peg} {p : Scanner α} {P : Phrase → α → Prop}

/-- Many values, each of one phrase. -/
theorem row (h : Follows n .spaced a p fun _ ps _ x => List.Forall₂ P ps [x])
    (ha : a.Eats .spaced) :
    Follows n .spaced (.many a) (Scanner.many p) fun _ ps _ xs => List.Forall₂ P ps xs :=
  .many h ha .nil fun _ _ _ _ hx hxs => List.rel_append hx hxs

/-- One or more values with commas between. -/
theorem separated (h : Follows n .spaced a p fun _ ps _ x => List.Forall₂ P ps [x]) :
    Follows n .spaced (.separated a) (Scanner.separated p)
      fun _ ps _ xs => List.Forall₂ P ps xs := by
  have hnext : Follows n .spaced (.seq (.text ",") a)
      (Scanner.exactly "," >>= fun _ => blanks >>= fun _ => p)
      fun _ ps _ x => List.Forall₂ P ps [x] := by
    refine .seq (.exactly ",") ?_
    rintro _ _ _ _ ⟨rfl, -⟩
    exact h
  refine .seq h fun _ ps _ x hx => ?_
  refine (row hnext (.seq (.text (by decide)))).map fun _ qs _ xs hxs => ?_
  exact List.rel_append hx hxs

end Scanner.Follows

/-- Nothing, or values with commas between of which one may follow the last. -/
theorem follows_listed {α : Type} {a : Peg} {p : Scanner α} {P : Phrase → α → Prop}
    (h : Follows n .spaced a p fun _ ps _ x => List.Forall₂ P ps [x]) :
    Follows n .spaced (.listed a) (optional (listed p))
      fun _ ps _ xs => List.Forall₂ P ps (xs.getD []) := by
  have hcomma : Follows n .spaced (.optional (.text ",")) (optional (exactly ","))
      fun _ ps _ _ => ps = [] :=
    .optional (.exactly ",") (fun _ => rfl) fun _ _ _ _ hps => hps.1
  have hitems : Follows n .spaced (.seq (.separated a) (.optional (.text ","))) (listed p)
      fun _ ps _ xs => List.Forall₂ P ps xs := by
    refine .seq (.separated h) fun _ ps _ xs hxs => ?_
    refine hcomma.map ?_
    rintro _ _ _ _ rfl
    rwa [List.append_nil]
  exact .optional hitems (fun _ => .nil) fun _ _ _ _ hxs => hxs

/-! ## Operators -/

section

variable {α : Type} {r : Rule} {op : α}

/-- The phrase of an operator. -/
def IsSign (r : Rule) (op : α) (c : Cursor) (ps : List Phrase) (op' : α) : Prop :=
  op' = op ∧ ∃ lexeme, ps = [⟨r, c.position, lexeme, []⟩]

theorem follows_sign {text : String} (hbody : r.body = .text text) (hkind : r.kind = .plain)
    (op : α) :
    Follows n .spaced (.rule r) (sign op text) fun c ps _ op' => IsSign r op c ps op' := by
  refine .rule ?_
  rw [hbody, hkind]
  refine (Follows.exactly text).map ?_
  rintro c _ d _ ⟨rfl, -⟩
  refine ⟨rfl, c.rest.take (d.offset - c.offset), ?_⟩
  simp [Rule.phrases, hkind, RuleKind.isKept]

theorem follows_wordSign {text : String} (hbody : r.body = .word [text])
    (hkind : r.kind = .atomic) (htext : text.toList.all isWordChar = true) (op : α) :
    Follows n .spaced (.rule r) (wordSign op text) fun c ps _ op' => IsSign r op c ps op' := by
  have hwords : ∀ w : String, decide (w = text) = true ↔ w ∈ [text] := by simp
  refine (Follows.lexeme (T := fun _ op' => op' = op) hkind (by decide) ?_).mono ?_
  · rw [hbody]
    refine (follows_word (areWords_one htext) hwords).map ?_
    rintro c _ d w ⟨rfl, lexeme, hlexeme, -⟩
    exact ⟨rfl, lexeme, hlexeme, rfl⟩
  · rintro c _ d _ ⟨lexeme, rfl, rfl⟩
    exact ⟨rfl, lexeme, rfl⟩

/-- The remainder sign does not stand in front of a closing brace. -/
theorem follows_remSign :
    Follows n .spaced (.rule .remSign) remSign fun c ps _ op => IsSign .remSign .rem c ps op := by
  refine (Follows.lexeme (T := fun _ op => op = .rem) rfl (by decide) ?_).mono ?_
  · intro c hc
    unfold Reads
    dsimp only
    split
    · next rest hrest =>
      exact .inl ⟨rfl, .noSecond (.mark rfl hrest)
        (.someAhead (.mark rfl (Cursor.rest_drop_one hrest)))⟩
    · next hopen =>
      obtain ⟨hp, ha⟩ | ⟨_, d, _, hp, ha, rfl, hbehind⟩ :=
        Follows.exactly (m := .atomic) "%" c hc
      · exact .inl ⟨by rw [result_bind, hp]; rfl, .noFirst ha⟩
      · have hnext : ∀ y ∈ d.rest.head?, y ≠ '\x7d' := by
          rintro y hy rfl
          obtain ⟨rest, hrest⟩ := List.head?_eq_some_iff.1 hy
          exact hopen rest (hrest ▸ hbehind.rest)
        exact .inr ⟨.rem, d, [], reads_bind.2 ⟨_, _, hp, rfl⟩,
          .seq ha (.notAhead (.noMark rfl hnext)), rfl, _, hbehind, rfl⟩
  · rintro c _ d _ ⟨lexeme, rfl, rfl⟩
    exact ⟨rfl, lexeme, rfl⟩

end

theorem eats_unarySign : Peg.unarySign.Eats .spaced := by
  refine .firstOf ?_
  simp only [List.forall_mem_cons]
  exact ⟨.rule (.word (by decide +kernel)), .rule (.text (by decide +kernel)),
    List.forall_mem_nil _⟩

/-- An operator before an operand. -/
theorem follows_unarySign : Follows n .spaced .unarySign unarySign
    fun _ ps _ sign => List.Forall₂ IsItem ps [.unary sign] := by
  have hop {r : Rule} {op : UnaryOp} {p : Scanner UnaryOp} (hfixity : r.fixity? = some .before)
      (hr : r.unaryOp = op)
      (h : Follows n .spaced (.rule r) p fun c ps _ op' => IsSign r op c ps op') :
      Follows n .spaced (.rule r) p
        fun c ps _ op => List.Forall₂ IsItem ps [.unary ⟨op, c.position⟩] := by
    refine h.mono ?_
    rintro c _ d _ ⟨rfl, lexeme, rfl⟩
    exact .cons ⟨hfixity, hr, rfl, rfl⟩ .nil
  refine .here fun position => Follows.map
    (.more (hop rfl rfl (follows_wordSign rfl rfl (by decide +kernel) _)) <|
      .one (hop rfl rfl (follows_sign rfl rfl _))) ?_
  rintro c ps d op hitem rfl
  exact hitem

/-- Operators before an operand. -/
theorem follows_unarySigns : Follows n .spaced (.many .unarySign) (many unarySign)
    fun _ ps _ signs => List.Forall₂ IsItem ps (signs.map .unary) :=
  .many follows_unarySign eats_unarySign .nil fun _ _ _ _ hsign hsigns =>
    List.rel_append hsign hsigns

theorem eats_link : Peg.link.Eats .spaced := by
  refine .seq (.firstOf ?_)
  simp only [List.forall_mem_cons]
  exact ⟨.rule (.word (by decide +kernel)), .rule (.word (by decide +kernel)),
    .rule (.text (by decide +kernel)), .rule (.text (by decide +kernel)),
    .rule (.text (by decide +kernel)), .rule (.text (by decide +kernel)),
    .rule (.text (by decide +kernel)), .rule (.text (by decide +kernel)),
    .rule (.text (by decide +kernel)), .rule (.text (by decide +kernel)),
    .rule (.text (by decide +kernel)), .rule (.text (by decide +kernel)),
    .rule (.text (by decide +kernel)), .rule (.seq (.text (by decide +kernel))),
    List.forall_mem_nil _⟩

/-- An operator between operands. -/
theorem follows_binarySign : Follows n .spaced .binarySign binarySign
    fun _ ps _ sign => List.Forall₂ IsItem ps [.binary sign] := by
  have hop {r : Rule} {op : BinaryOp} {p : Scanner BinaryOp} (hfixity : r.fixity? = some .between)
      (hr : r.binaryOp? = some op)
      (h : Follows n .spaced (.rule r) p fun c ps _ op' => IsSign r op c ps op') :
      Follows n .spaced (.rule r) p
        fun c ps _ op => List.Forall₂ IsItem ps [.binary ⟨op, c.position⟩] := by
    refine h.mono ?_
    rintro c _ d _ ⟨rfl, lexeme, rfl⟩
    exact .cons ⟨hfixity, hr, rfl, rfl⟩ .nil
  have hword {r : Rule} {text : String} {op : BinaryOp} (hbody : r.body = .word [text])
      (hkind : r.kind = .atomic) (htext : text.toList.all isWordChar = true)
      (hfixity : r.fixity? = some .between) (hr : r.binaryOp? = some op) :=
    hop hfixity hr (follows_wordSign hbody hkind htext op)
  have hsign {r : Rule} {text : String} {op : BinaryOp} (hbody : r.body = .text text)
      (hkind : r.kind = .plain) (hfixity : r.fixity? = some .between)
      (hr : r.binaryOp? = some op) :=
    hop hfixity hr (follows_sign hbody hkind op)
  refine .here fun position => Follows.map
    (.more (hword rfl rfl (by decide +kernel) rfl rfl) <|
      .more (hword rfl rfl (by decide +kernel) rfl rfl) <|
      .more (hsign rfl rfl rfl rfl) <| .more (hsign rfl rfl rfl rfl) <|
      .more (hsign rfl rfl rfl rfl) <| .more (hsign rfl rfl rfl rfl) <|
      .more (hsign rfl rfl rfl rfl) <| .more (hsign rfl rfl rfl rfl) <|
      .more (hsign rfl rfl rfl rfl) <| .more (hsign rfl rfl rfl rfl) <|
      .more (hsign rfl rfl rfl rfl) <| .more (hsign rfl rfl rfl rfl) <|
      .more (hsign rfl rfl rfl rfl) <| .one (hop rfl rfl follows_remSign)) ?_
  rintro c ps d op hitem rfl
  exact hitem

/-! ## Operands -/

/-- A dot and the name of a member. -/
theorem follows_memberAccess : Follows n .spaced (.rule .member) memberAccess
    fun _ ps _ access => List.Forall₂ IsAccess ps [access] := by
  refine .rule (.here fun position => .seq (.exactly ".") ?_)
  rintro c _ d _ ⟨rfl, -⟩
  refine (follows_identifier (by decide)).map ?_
  rintro c' _ d' name rfl rfl
  have hfound : firstOversized? [⟨.identifier, c'.position, name.toList, []⟩] = none :=
    firstOversized?_of_ne .identifier (by decide) rfl
  have haccess := isAccess_member c.position (c.rest.take (d'.offset - c.offset)) hfound
  rw [String.ofList_toList] at haccess
  exact .cons haccess .nil

/-- A key: a name or a quoted text. -/
theorem follows_key : Follows n .spaced (.choice (.rule .identifier) (.rule .string))
    (orElse identifier stringLiteral)
    fun _ ps _ key => ∃ p, ps = [p] ∧ p.toKey = .ok key ∧ firstOversized? [p] = none := by
  refine .orElse ((follows_identifier (by decide)).mono ?_) (follows_stringLiteral.mono ?_)
  · rintro c _ d name rfl
    refine ⟨_, rfl, ?_, firstOversized?_of_ne .identifier (by decide) rfl⟩
    rw [Phrase.toKey, String.ofList_toList]
  · rintro c _ d _ ⟨text, q, position, body, rfl, -, rfl⟩
    exact ⟨_, rfl, rfl, firstOversized?_string ..⟩

section

variable {p : Scanner Expr}
  (h : Follows n .spaced (.rule .expression) p fun _ ps _ e => List.Forall₂ IsExpr ps [e])

include h

/-- A key between square brackets. -/
theorem follows_indexAccess : Follows (n + 1) .spaced (.rule .index) (indexAccess p)
    fun _ ps _ access => List.Forall₂ IsAccess ps [access] := by
  refine .rule (.here fun position => .behind (by decide) (.seq h ?_))
  rintro _ _ _ key (_ | ⟨hkey, _ | _⟩)
  refine (Follows.exactly "]").map ?_
  rintro _ _ d _ ⟨rfl, -⟩ c rfl
  exact .cons (isAccess_index _ _ hkey) .nil

/-- Arguments between parentheses. -/
theorem follows_callAccess : Follows (n + 1) .spaced (.rule .arguments) (callAccess p)
    fun _ ps _ access => List.Forall₂ IsAccess ps [access] := by
  have hargs : Follows n .spaced (.optional (.separated (.rule .expression)))
      (optional (separated p)) fun _ ps _ args => List.Forall₂ IsExpr ps (args.getD []) :=
    .optional (.separated h) (fun _ => .nil) fun _ _ _ _ hargs => hargs
  refine .rule (.here fun position => .behind (by decide) (.seq hargs ?_))
  rintro _ ps _ args hargs
  refine (Follows.exactly ")").map ?_
  rintro _ _ d _ ⟨rfl, -⟩ c rfl
  rw [List.append_nil]
  exact .cons (isAccess_arguments _ _ hargs) .nil

/-- What is reached from an operand. -/
theorem follows_accessor : Follows (n + 1) .spaced .accessor (accessor p)
    fun _ ps _ access => List.Forall₂ IsAccess ps [access] :=
  .more follows_memberAccess <| .more (follows_indexAccess h) <| .one (follows_callAccess h)

/-- A list literal. -/
theorem follows_listLiteral : Follows (n + 1) .spaced (.rule .list) (listLiteral p)
    fun _ ps _ e => List.Forall₂ IsPrimary ps [e] := by
  refine .rule (.here fun position => .behind (by decide) (.seq (follows_listed h) ?_))
  rintro _ ps _ items hitems
  refine (Follows.exactly "]").map ?_
  rintro _ _ d _ ⟨rfl, -⟩ c rfl
  rw [List.append_nil]
  exact .cons (isPrimary_list _ _ hitems) .nil

/-- An entry of a map. -/
theorem follows_mapEntry : Follows n .spaced (.rule .mapEntry) (mapEntry p)
    fun _ ps _ entry => List.Forall₂ IsEntry ps [entry] := by
  refine .rule (.seq follows_key ?_)
  rintro c _ _ key ⟨k, rfl, hkey, hfound⟩
  refine .seq (.exactly ":") ?_
  rintro _ _ _ _ ⟨rfl, -⟩
  refine h.map ?_
  rintro _ _ d value (_ | ⟨hvalue, _ | _⟩)
  exact .cons (isEntry_of_parts _ _ hkey hfound hvalue) .nil

/-- A map literal. -/
theorem follows_mapLiteral : Follows (n + 1) .spaced (.rule .map) (mapLiteral p)
    fun _ ps _ e => List.Forall₂ IsPrimary ps [e] := by
  refine .rule (.here fun position => .behind (by decide)
    (.seq (follows_listed (follows_mapEntry h)) ?_))
  rintro _ ps _ entries hentries
  refine (Follows.exactly "\x7d").map ?_
  rintro _ _ d _ ⟨rfl, -⟩ c rfl
  rw [List.append_nil]
  exact .cons (isPrimary_map _ _ hentries) .nil

/-- A group, of which the parentheses leave no phrase. -/
theorem follows_grouped : Follows (n + 1) .spaced .grouped (grouped p)
    fun _ ps _ e => List.Forall₂ IsPrimary ps [e] := by
  refine .behind (by decide) (.seq h ?_)
  rintro _ _ _ e (_ | ⟨he, _ | _⟩)
  refine (Follows.exactly ")").map ?_
  rintro _ _ _ _ ⟨rfl, -⟩ _
  exact .cons he.isPrimary .nil

/-- A constant, a collection, a variable or a group. -/
theorem follows_primary : Follows (n + 1) .spaced .primary (primary p)
    fun _ ps _ e => List.Forall₂ IsPrimary ps [e] := by
  have hplace {a : Peg} {q : Scanner Expr} {position : Position}
      (hq : Follows (n + 1) .spaced a q fun _ ps _ e => List.Forall₂ IsPrimary ps [e]) :
      Follows (n + 1) .spaced a q
        fun c ps _ e => c.position = position → List.Forall₂ IsPrimary ps [e] :=
    hq.mono fun _ _ _ _ he _ => he
  refine .here fun position => .more (follows_literal.map ?_) <|
    .more (hplace (follows_listLiteral h)) <| .more (hplace (follows_mapLiteral h)) <|
    .more ((follows_identifier (by decide)).map ?_) <| .one (hplace (follows_grouped h))
  · rintro c _ d value ⟨q, rfl, hq⟩ rfl
    exact .cons hq .nil
  · rintro c _ d name rfl rfl
    have hvariable := isPrimary_variable c.position name.toList
    rw [String.ofList_toList] at hvariable
    exact .cons hvariable .nil

/-- An operand. -/
theorem follows_operand : Follows (n + 1) .spaced (.rule .operand) (operand p)
    fun _ ps _ e => List.Forall₂ IsItem ps [.operand e] := by
  have heats : Peg.accessor.Eats .spaced := by
    refine .firstOf ?_
    simp only [List.forall_mem_cons]
    exact ⟨.rule (.seq (.text (by decide))), .rule (.seq (.text (by decide))),
      .rule (.seq (.text (by decide))), List.forall_mem_nil _⟩
  refine .rule (.seq (follows_primary h) ?_)
  rintro c _ _ first (_ | ⟨hfirst, _ | _⟩)
  refine ((follows_accessor h).row heats).map ?_
  rintro _ ps d accesses haccesses
  exact .cons (isOperand_of_parts _ _ hfirst haccesses) .nil

/-- An operator with its right operand. -/
theorem follows_link : Follows (n + 1) .spaced .link (link p)
    fun _ ps _ link => List.Forall₂ IsItem ps link.items := by
  refine .seq follows_binarySign fun _ ps _ sign hsign => ?_
  refine .seq follows_unarySigns fun _ qs _ unary hunary => ?_
  refine (follows_operand h).map fun _ rs _ e he => ?_
  exact List.rel_append hsign (List.rel_append hunary he)

/-- A chain of operands. -/
theorem follows_chain : Follows (n + 1) .spaced (.rule .expression) (chain p)
    fun _ ps _ chain => List.Forall₂ IsExpr ps [chain.toTree.toExpr] := by
  have hlinks : Follows (n + 1) .spaced (.many .link) (many (link p))
      fun _ ps _ links => List.Forall₂ IsItem ps (links.flatMap Link.items) :=
    .many (follows_link h) eats_link .nil fun _ _ _ _ hlink hlinks =>
      List.rel_append hlink hlinks
  refine .rule (.seq follows_unarySigns fun _ ps _ unary hunary => ?_)
  refine .seq (follows_operand h) fun _ qs _ head hhead => ?_
  refine hlinks.map fun _ rs _ links hlinks => ?_
  have hitems : List.Forall₂ IsItem (ps ++ (qs ++ rs)) (Chain.mk unary head links).items :=
    List.rel_append hunary (List.rel_append hhead hlinks)
  exact .cons (isExpr_of_items hitems _ _) .nil

/-- An expression over the expressions in it. -/
theorem follows_grouping : Follows (n + 1) .spaced (.rule .expression) (grouping p)
    fun _ ps _ e => List.Forall₂ IsExpr ps [e] :=
  (follows_chain h).map fun _ _ _ _ he => he

end

/-- An expression follows its rule, by induction on the characters that are left. -/
theorem follows_expression : ∀ n, Follows n .spaced (.rule .expression) expression
    fun _ ps _ e => List.Forall₂ IsExpr ps [e]
  | 0 => fun _ hc => absurd hc (Nat.not_lt_zero _)
  | n + 1 => by
    rw [expression_eq]
    exact follows_grouping (follows_expression n)

/-- An expression leaves one phrase. -/
theorem follows_oneExpr (n : Nat) : Follows n .spaced (.rule .expression) expression
    fun _ ps _ e => ∃ p, ps = [p] ∧ IsExpr p e := by
  refine (follows_expression n).mono ?_
  rintro _ _ _ _ (_ | ⟨he, _ | _⟩)
  exact ⟨_, rfl, he⟩

/-- An operand that stands alone follows its rule. -/
theorem follows_target (n : Nat) : Follows n .spaced (.rule .operand) target
    fun _ ps _ e => ∃ p, ps = [p] ∧ IsOperand p e := by
  rw [target_eq]
  intro c hc
  have hoperand : Follows (c.rest.length + 1) .spaced (.rule .operand) (operand expression)
      fun _ ps _ e => ∃ p, ps = [p] ∧ IsOperand p e := by
    refine (follows_operand (follows_expression c.rest.length)).mono ?_
    rintro _ _ _ _ (_ | ⟨he, _ | _⟩)
    exact ⟨_, rfl, he⟩
  exact hoperand c (Nat.lt_succ_self _)

end TemplateEngine
