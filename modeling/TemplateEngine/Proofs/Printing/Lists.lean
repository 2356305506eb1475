import TemplateEngine.Proofs.Precedence.Depth
import TemplateEngine.Proofs.Printing.Lexemes
import TemplateEngine.Proofs.Printing.Trees

/-!
# Printed operators and lists

A tree of operators is printed as its chain: every operator before an operand as it is, `not` with a
space behind it, and every operator between operands with spaces around it. Each of them is read
back, since none is the beginning of another one that is tried before it.

What stands behind a printed expression inside another one is a comma or a bracket that closes
(`EndsExpr`). None of them begins an expression, an operator or an access, so each expression of a
list ends where it was printed to end (`reaches_separated`).
-/

namespace TemplateEngine

open Scanner

/-! ## Signs -/

section

variable {α : Type} (op : α) (text : String) {cs rest : List Char}

theorem scans_sign : Scans (sign op text) (text.toList ++ rest) fun a r => a = op ∧ r = rest := by
  refine .rule <| .bind (.exactly text rest) ?_
  rintro _ r rfl
  exact .pure ⟨rfl, rfl⟩

theorem fails_sign {text : String} (h : text.toList.isPrefixOf cs = false) :
    Fails (sign op text) cs :=
  .rule <| .bind (.exactly h)

theorem scans_wordSign (htext : text.toList.all isWordChar = true) (hrest : EndsWord rest) :
    Scans (wordSign op text) (text.toList ++ rest) fun a r => a = op ∧ r = rest := by
  refine .rule <| .bind (scans_wordThat htext hrest (decide_eq_true rfl)) ?_
  rintro _ r ⟨-, rfl⟩
  exact .pure ⟨rfl, rfl⟩

/-- Where no word begins no word operator is read. -/
theorem fails_wordSign {text : String} (h : EndsWord cs) (htext : text ≠ "") :
    Fails (wordSign op text) cs := by
  refine .rule <| .bind <| fails_wordThat ?_
  rw [h.takeWhile_eq]
  exact decide_eq_false (Ne.symm htext)

end

theorem endsWord_space (rest : List Char) : EndsWord (' ' :: rest) := by
  rintro _ ⟨⟩
  rfl

/-- How a unary operator is printed before its operand. -/
def UnaryOp.text : UnaryOp → List Char
  | .not => "not ".toList
  | .neg => "-".toList

theorem reaches_unarySign (op : UnaryOp) {more : List Char} (hmore : skipGap more = more) :
    Reaches unarySign (op.text ++ more) more fun s => s.op = op := by
  refine .here fun p => .bind
    (P := fun o r => o = op ∧ skipGap r = more) ?_ fun o r ⟨ho, hr⟩ => .pure ⟨hr, ho⟩
  cases op with
  | not =>
    refine .firstOf [] (List.forall_mem_nil _) ?_
    have hrest := endsWord_space more
    refine (scans_wordSign UnaryOp.not "not" (by decide) hrest).mono ?_
    rintro _ _ ⟨rfl, rfl⟩
    exact ⟨rfl, hmore⟩
  | neg =>
    have hword : Fails (wordSign UnaryOp.not "not") ("-".toList ++ more) :=
      fails_wordSign _ (by rintro _ ⟨⟩; rfl) (by decide)
    refine .firstOf [_] (List.forall_mem_singleton.2 hword) ?_
    refine (scans_sign UnaryOp.neg "-").mono ?_
    rintro _ _ ⟨rfl, rfl⟩
    exact ⟨rfl, hmore⟩

theorem scans_remSign (rest : List Char) :
    Scans remSign ("%".toList ++ ' ' :: rest) fun o r => o = .rem ∧ r = ' ' :: rest := by
  refine .rule fun c hc => ?_
  have hread : Scans (do exactly "%"; pure BinaryOp.rem) ("%".toList ++ ' ' :: rest)
      fun o r => o = .rem ∧ r = ' ' :: rest := .text (.pure ⟨rfl, rfl⟩)
  obtain ⟨o, d, hreads, ho⟩ := hread c hc
  refine ⟨o, d, ?_, ho⟩
  unfold Reads
  dsimp only
  split
  · next tail hbrace =>
    have hspace : '%' :: ' ' :: rest = '%' :: '\x7d' :: tail := hc.symm.trans hbrace
    cases hspace
  · exact hreads

/-- The signs between operands in the order in which they are tried, but for the remainder sign. -/
def binarySigns : List (BinaryOp × String) :=
  [(.eq, "=="), (.ne, "!="), (.le, "<="), (.ge, ">="), (.lt, "<"), (.gt, ">"), (.concat, "~"),
    (.add, "+"), (.sub, "-"), (.mul, "*"), (.div, "/")]

theorem binarySign_eq : binarySign = (do
    let p ← here
    let op ← firstOf (wordSign .or "or" :: wordSign .and "and" ::
      (binarySigns.map (fun x => sign x.1 x.2) ++ [remSign]))
    pure ⟨op, p⟩) := rfl

/-- A text without spaces that a printed sign begins with is in the sign. -/
theorem prefix_of_append_space {text symbol rest : List Char} (htext : ' ' ∉ text)
    (h : text <+: symbol ++ ' ' :: rest) : text <+: symbol := by
  obtain hsymbol | ⟨more, rfl⟩ := List.prefix_or_prefix_of_prefix h (List.prefix_append symbol _)
  · exact hsymbol
  · cases more with
    | nil => simp
    | cons x more =>
      -- the text would go on with the space
      obtain ⟨tail, htail⟩ := h
      rw [List.append_assoc, List.append_cancel_left_eq] at htail
      obtain ⟨rfl, -⟩ := List.cons.inj htail
      exact absurd (by simp) htext

theorem fails_sign_unlike {op : BinaryOp} {text symbol : String} {rest : List Char}
    (htext : ' ' ∉ text.toList) (h : ¬ text.toList <+: symbol.toList) :
    Fails (sign op text) (symbol.toList ++ ' ' :: rest) := by
  refine fails_sign op (Bool.eq_false_iff.2 fun hbegins => h ?_)
  exact prefix_of_append_space htext (List.isPrefixOf_iff_prefix.1 hbegins)

/-- A printed sign is not taken for one of those that are tried before it. -/
theorem scans_binarySigns {signs : List (BinaryOp × String)} {op : BinaryOp} {symbol : String}
    (hspace : ∀ x ∈ signs, ' ' ∉ x.2.toList)
    (hsigns : signs.Pairwise fun x y => ¬ x.2.toList <+: y.2.toList) (h : (op, symbol) ∈ signs)
    (after : List (Scanner BinaryOp)) (rest : List Char) :
    Scans (firstOf (signs.map (fun x => sign x.1 x.2) ++ after)) (symbol.toList ++ ' ' :: rest)
      fun o r => o = op ∧ r = ' ' :: rest := by
  induction signs with
  | nil => cases h
  | cons x signs ih =>
    obtain ⟨hx, hrest⟩ := List.pairwise_cons.1 hsigns
    obtain ⟨hspacex, hspacerest⟩ := List.forall_mem_cons.1 hspace
    obtain rfl | h := List.mem_cons.1 h
    · exact .orElse_left (scans_sign _ _)
    · exact .orElse_right (fails_sign_unlike hspacex (hx _ h)) (ih hspacerest hrest h)

/-- A printed operator between operands is read back. -/
theorem scans_binarySign (op : BinaryOp) (rest : List Char) :
    Scans binarySign (op.symbol.toList ++ ' ' :: rest) fun s r => s.op = op ∧ r = ' ' :: rest := by
  rw [binarySign_eq]
  refine .here fun p => .bind
    (P := fun o r => o = op ∧ r = ' ' :: rest) ?_ fun o r ⟨ho, hr⟩ => .pure ⟨ho, hr⟩
  have hspace : ∀ x ∈ binarySigns, ' ' ∉ x.2.toList := by decide
  have hpairwise : binarySigns.Pairwise fun x y => ¬ x.2.toList <+: y.2.toList := by decide
  have hwords : EndsWord (op.symbol.toList ++ ' ' :: rest) →
      Fails (wordSign BinaryOp.or "or") (op.symbol.toList ++ ' ' :: rest) ∧
      Fails (wordSign BinaryOp.and "and") (op.symbol.toList ++ ' ' :: rest) := fun h =>
    ⟨fails_wordSign _ h (by decide), fails_wordSign _ h (by decide)⟩
  cases op with
  | or => exact .orElse_left (scans_wordSign _ _ (by decide) (endsWord_space rest))
  | and =>
    have hor : Fails (wordSign BinaryOp.or "or") ("and".toList ++ ' ' :: rest) :=
      .rule <| .bind <| fails_wordThat_word (by decide) (endsWord_space rest) (by decide)
    exact .orElse_right hor (.orElse_left (scans_wordSign _ _ (by decide) (endsWord_space rest)))
  | rem =>
    obtain ⟨hor, hand⟩ := hwords (by rintro _ ⟨⟩; rfl)
    have hnone : ∀ x ∈ binarySigns, ¬ x.2.toList <+: "%".toList := by decide
    refine .orElse_right hor <| .orElse_right hand <|
      .firstOf _ (fun q hq => ?_) (scans_remSign rest)
    obtain ⟨x, hx, rfl⟩ := List.mem_map.1 hq
    exact fails_sign_unlike (hspace x hx) (hnone x hx)
  | eq | ne | le | ge | lt | gt | concat | add | sub | mul | div =>
    obtain ⟨hor, hand⟩ := hwords (by rintro _ ⟨⟩; rfl)
    exact .orElse_right hor <| .orElse_right hand <|
      scans_binarySigns hspace hpairwise (by decide) _ rest

/-! ## Where expressions end -/

/-- The character stands behind an expression inside another one. -/
def isClosing (c : Char) : Bool := c = ',' || c = ')' || c = ']' || c = '\x7d'

theorem isClosing_iff {c : Char} :
    isClosing c = true ↔ c = ',' ∨ c = ')' ∨ c = ']' ∨ c = '\x7d' := by
  simp [isClosing, or_assoc]

/-- An expression ends here. -/
structure EndsExpr (cs : List Char) : Prop where
  lexeme : EndsLexeme cs
  closed : ∃ c rest, skipGap cs = c :: rest ∧ isClosing c = true

section

variable {c : Char} {cs rest : List Char}

/-- Where other characters than those of words begin no word goes on. -/
theorem endsWord_cons (h : isWordChar c = false) (rest : List Char) : EndsWord (c :: rest) := by
  rintro _ ⟨⟩
  exact h

theorem endsLexeme_cons (h : isWordChar c = false) (hdot : c ≠ '.') (rest : List Char) :
    EndsLexeme (c :: rest) where
  word := endsWord_cons h rest
  fraction := by
    rintro d r ⟨⟩
    exact absurd rfl hdot

theorem isWordChar_of_isClosing (h : isClosing c = true) : isWordChar c = false := by
  obtain rfl | rfl | rfl | rfl := isClosing_iff.1 h <;> decide

theorem isGap_of_isClosing (h : isClosing c = true) : isGap c = false := by
  obtain rfl | rfl | rfl | rfl := isClosing_iff.1 h <;> rfl

theorem endsExpr_cons (h : isClosing c = true) (rest : List Char) : EndsExpr (c :: rest) where
  lexeme := endsLexeme_cons (isWordChar_of_isClosing h) (by rintro rfl; cases h) rest
  closed := ⟨c, rest, skipGap_cons (isGap_of_isClosing h) rest, h⟩

/-! ## Failing before other characters -/

theorem fails_exactly {text : String} {d : Char} (htext : text.toList.head? = some d)
    (h : ∀ c ∈ cs.head?, c ≠ d) : Fails (exactly text) cs := by
  obtain ⟨tail, htail⟩ := List.head?_eq_some_iff.1 htext
  refine .exactly ?_
  rw [htail]
  cases cs with
  | nil => rfl
  | cons c cs => rw [List.isPrefixOf_cons_cons, beq_false_of_ne (Ne.symm (h c rfl)), Bool.false_and]

theorem fails_unarySign (hword : Fails (wordSign UnaryOp.not "not") cs)
    (h : ∀ c ∈ cs.head?, c ≠ '-') : Fails unarySign cs := by
  refine .here fun p => .bind (.firstOf ?_)
  simp only [List.forall_mem_cons, List.not_mem_nil, false_imp_iff, implies_true, and_true]
  exact ⟨hword, .rule (.bind (fails_exactly rfl h))⟩

/-- Nothing is reached where none of the three characters stands. -/
theorem fails_accessor (h : ∀ c ∈ cs.head?, c ≠ '.' ∧ c ≠ '[' ∧ c ≠ '(') :
    Fails (accessor expression) cs := by
  refine .firstOf ?_
  simp only [List.forall_mem_cons, List.not_mem_nil, false_imp_iff, implies_true, and_true]
  exact ⟨.rule <| .here fun _ => .bind <| fails_exactly rfl fun c hc => (h c hc).1,
    .rule <| .here fun _ => .bind <| fails_exactly rfl fun c hc => (h c hc).2.1,
    .rule <| .here fun _ => .bind <| fails_exactly rfl fun c hc => (h c hc).2.2⟩

/-- No operator between operands begins with a closing character. -/
theorem fails_binarySign (h : isClosing c = true) : Fails binarySign (c :: rest) := by
  have hword := endsWord_cons (isWordChar_of_isClosing h) rest
  have hsigns : ∀ x ∈ binarySigns, (x.2.toList.head?.any fun d => !isClosing d) = true := by
    decide
  have hne : ∀ d, isClosing d = false → ∀ c' ∈ (c :: rest).head?, c' ≠ d := by
    rintro d hd _ ⟨⟩ rfl
    rw [h] at hd
    cases hd
  rw [binarySign_eq]
  refine .here fun p => .bind <| .firstOf <|
    List.forall_mem_cons.2 ⟨fails_wordSign _ hword (by decide),
      List.forall_mem_cons.2 ⟨fails_wordSign _ hword (by decide),
        List.forall_mem_append.2 ⟨?_, ?_⟩⟩⟩
  · intro q hq
    obtain ⟨x, hx, rfl⟩ := List.mem_map.1 hq
    obtain ⟨d, hd, hclosing⟩ := (Option.any_eq_true _ _).1 (hsigns x hx)
    exact .rule (.bind (fails_exactly hd (hne d (by simpa using hclosing))))
  · refine List.forall_mem_singleton.2 (.rule fun c' hc' => ?_)
    have hfails : Fails (do exactly "%"; pure BinaryOp.rem) (c :: rest) :=
      .bind (fails_exactly rfl (hne '%' rfl))
    split
    · rfl
    · exact hfails c' hc'

/-- A constant begins with a character of words or with quotes. -/
theorem fails_literal_cons (hword : isWordChar c = false) (hdouble : c ≠ '"') (hsingle : c ≠ '\'')
    (rest : List Char) : Fails literal (c :: rest) := by
  have hends := endsWord_cons hword rest
  refine fails_literal (fails_digits (isDigit_of_endsWord hends)) (fails_stringLiteral ?_) ?_
  · rintro _ ⟨⟩
    exact ⟨hdouble, hsingle⟩
  · rw [hends.takeWhile_eq]
    decide

/-- No operand begins with a closing character. -/
theorem fails_operand (h : isClosing c = true) : Fails (operand expression) (c :: rest) := by
  have hword := endsWord_cons (isWordChar_of_isClosing h) rest
  have hliteral : Fails literal (c :: rest) :=
    fails_literal_cons (isWordChar_of_isClosing h) (by rintro rfl; cases h)
      (by rintro rfl; cases h) rest
  have hopen : ∀ d, isClosing d = false → ∀ c' ∈ (c :: rest).head?, c' ≠ d := by
    rintro d hd _ ⟨⟩ rfl
    rw [h] at hd
    cases hd
  refine .rule <| .bind <| .here fun p => .firstOf ?_
  simp only [List.forall_mem_cons, List.not_mem_nil, false_imp_iff, implies_true, and_true]
  refine ⟨.bind hliteral, .rule <| .here fun _ => .bind <| fails_exactly rfl (hopen _ rfl),
    .rule <| .here fun _ => .bind <| fails_exactly rfl (hopen _ rfl),
    .bind <| .rule <| fails_wordThat ?_, .bind <| fails_exactly rfl (hopen _ rfl)⟩
  rw [hword.takeWhile_eq]
  decide

/-- No expression begins with a closing character. -/
theorem fails_expression (h : isClosing c = true) : Fails expression (c :: rest) := by
  have hword := endsWord_cons (isWordChar_of_isClosing h) rest
  have hsign : Fails unarySign (c :: rest) := by
    refine fails_unarySign (fails_wordSign _ hword (by decide)) ?_
    rintro _ ⟨⟩ rfl
    cases h
  have hgap := skipGap_cons (isGap_of_isClosing h) rest
  have hsigns : Spans unarySign (fun _ _ : UnarySign => True) [] (c :: rest) (c :: rest) :=
    .nil hsign hgap
  rw [expression_eq]
  refine .bind <| .rule <| .after hsigns.reaches_many fun _ r hr => .blanks ?_
  rw [hr.1]
  exact .bind (fails_operand h)

end

/-! ## Lists -/

section

variable {α β : Type} {p : Scanner α} {Q : β → α → Prop} {printed : β → List Char} {c : Char}
  {rest : List Char}

/-- Values with a comma and a space between. -/
def printedList (printed : β → List Char) : List β → List Char
  | [] => []
  | b :: bs => printed b ++ bs.flatMap fun x => ',' :: ' ' :: printed x

/-- A value is read back wherever an expression can end behind it. -/
def ReadBack (p : Scanner α) (Q : β → α → Prop) (printed : β → List Char) (b : β) : Prop :=
  (∀ rest, skipGap (printed b ++ rest) = printed b ++ rest) ∧
    ∀ rest, EndsExpr rest → Reaches p (printed b ++ rest) (skipGap rest) (Q b)

theorem endsExpr_more (hc : isClosing c = true) (bs : List β) :
    EndsExpr ((bs.flatMap fun x => ',' :: ' ' :: printed x) ++ c :: rest) := by
  cases bs with
  | nil => exact endsExpr_cons hc rest
  | cons b bs => exact endsExpr_cons rfl _

theorem skipGap_more (hc : isClosing c = true) (bs : List β) :
    skipGap ((bs.flatMap fun x => ',' :: ' ' :: printed x) ++ c :: rest) =
      (bs.flatMap fun x => ',' :: ' ' :: printed x) ++ c :: rest := by
  cases bs with
  | nil => exact skipGap_cons (isGap_of_isClosing hc) rest
  | cons b bs => exact skipGap_cons rfl _

/-- Each further value stands behind a comma. -/
theorem spans_more (hc : isClosing c = true) (hcomma : c ≠ ',') {bs : List β}
    (h : ∀ b ∈ bs, ReadBack p Q printed b) :
    Spans (do exactly ","; blanks; p) Q bs
      ((bs.flatMap fun x => ',' :: ' ' :: printed x) ++ c :: rest) (c :: rest) := by
  induction bs with
  | nil =>
    refine .nil (.bind (fails_exactly rfl ?_)) (skipGap_cons (isGap_of_isClosing hc) rest)
    rintro _ ⟨⟩
    exact hcomma
  | cons b bs ih =>
    obtain ⟨⟨hgap, hreads⟩, hbs⟩ := List.forall_mem_cons.1 h
    have hends : EndsExpr ((bs.flatMap fun x => ',' :: ' ' :: printed x) ++ c :: rest) :=
      endsExpr_more hc bs
    have hb := hreads _ hends
    rw [skipGap_more hc bs] at hb
    rw [List.flatMap_cons, List.append_assoc]
    refine .cons (.char rfl (.blanks ?_)) ?_ (ih hbs)
    · change Scans p (skipGap (printed b ++ _)) _
      rw [hgap]
      exact hb
    · simp only [List.cons_append, List.length_cons, List.length_append]
      omega

/-- Values with commas between are read back. -/
theorem reaches_separated (hc : isClosing c = true) (hcomma : c ≠ ',') {b : β} {bs : List β}
    (h : ∀ x ∈ b :: bs, ReadBack p Q printed x) :
    Reaches (separated p) (printedList printed (b :: bs) ++ c :: rest) (c :: rest)
      fun as => List.Forall₂ Q (b :: bs) as := by
  obtain ⟨⟨-, hreads⟩, hbs⟩ := List.forall_mem_cons.1 h
  rw [printedList, List.append_assoc]
  refine .blanks (hreads _ (endsExpr_more hc bs)) fun a ha => ?_
  rw [skipGap_more hc bs]
  exact (spans_more hc hcomma hbs).reaches_many.map fun as has => .cons ha has

theorem reaches_listed (hc : isClosing c = true) (hcomma : c ≠ ',') {b : β} {bs : List β}
    (h : ∀ x ∈ b :: bs, ReadBack p Q printed x) :
    Reaches (listed p) (printedList printed (b :: bs) ++ c :: rest) (c :: rest)
      fun as => List.Forall₂ Q (b :: bs) as := by
  refine .blanks (reaches_separated hc hcomma h) fun as has => ?_
  have hnone : Scans (optional (exactly ",")) (c :: rest) fun x r => x = none ∧ r = c :: rest := by
    refine .optional_none (fails_exactly rfl ?_)
    rintro _ ⟨⟩
    exact hcomma
  refine .bind hnone ?_
  rintro _ _ ⟨rfl, rfl⟩
  exact .pure ⟨skipGap_cons (isGap_of_isClosing hc) rest, has⟩

/-- A list may be empty. -/
theorem reaches_optional {p : Scanner (List α)} {bs : List β} (hc : isClosing c = true)
    (hnil : Fails p (c :: rest))
    (hcons : ∀ b bs', bs = b :: bs' → Reaches p (printedList printed bs ++ c :: rest) (c :: rest)
      fun as => List.Forall₂ Q bs as) :
    Reaches (optional p) (printedList printed bs ++ c :: rest) (c :: rest)
      fun x => List.Forall₂ Q bs (x.getD []) := by
  cases bs with
  | nil =>
    refine (Scans.optional_none hnil).mono ?_
    rintro _ _ ⟨rfl, rfl⟩
    exact ⟨skipGap_cons (isGap_of_isClosing hc) rest, .nil⟩
  | cons b bs =>
    refine (hcons b bs rfl).optional_some.mono ?_
    rintro _ r ⟨as, rfl, hr, has⟩
    exact ⟨hr, has⟩

end

end TemplateEngine
