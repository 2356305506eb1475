import TemplateEngine.Proofs.Printing.Expressions

/-!
# Printed operands

An operand is printed as a primary with what is reached from it behind. Every primary and every
access is read back, if the expressions in it are. By induction on the expression, every expression
without groups is read back (`readsBack_of_nodes`).
-/

namespace TemplateEngine

open Scanner

/-! ## Accesses -/

section

variable {rest : List Char}

theorem isGap_of_isWordChar {c : Char} (h : isWordChar c = true) : isGap c = false := by
  by_contra hgap
  rw [Bool.not_eq_false] at hgap
  simp only [isGap, Bool.or_eq_true, decide_eq_true_eq] at hgap
  obtain ((rfl | rfl) | rfl) | rfl := hgap <;> revert h <;> decide

/-- A name begins like a name. -/
theorem IsIdentifier.begins {w : String} (h : IsIdentifier w) :
    ∃ c cs, w.toList = c :: cs ∧ isNameStart c = true := by
  have hname := h.1
  rw [isName, Bool.and_eq_true] at hname
  obtain ⟨c, hc, hstart⟩ := (Option.any_eq_true _ _).1 hname.1
  obtain ⟨cs, hcs⟩ := List.head?_eq_some_iff.1 hc
  exact ⟨c, cs, hcs, hstart⟩

/-- Behind an operand a member ends the lexeme. -/
theorem endsLexeme_member {name : String} (h : IsIdentifier name) (rest : List Char) :
    EndsLexeme ('.' :: (name.toList ++ rest)) where
  word := endsWord_cons (by decide) _
  fraction := by
    obtain ⟨c, cs, hname, hstart⟩ := h.begins
    rw [hname]
    rintro d r ⟨⟩
    exact isDigit_of_isNameStart hstart

theorem reaches_member {name : String} (h : IsIdentifier name) (hrest : EndsWord rest) :
    Reaches (accessor expression) ('.' :: (name.toList ++ rest)) (skipGap rest)
      (Reaching fun e => .member e name .unknown) := by
  obtain ⟨c, cs, hname, hstart⟩ := h.begins
  have hgap : skipGap (name.toList ++ rest) = name.toList ++ rest := by
    rw [hname]
    exact skipGap_cons (isGap_of_isWordChar (isWordChar_of_isNameStart hstart)) _
  refine .orElse_left <| .rule <| .here fun p => .char_blanks rfl hgap ?_
  refine .bind (scans_identifier h hrest) ?_
  rintro _ _ ⟨rfl, rfl⟩
  exact .pure ⟨rfl, fun e => rfl⟩

theorem reaches_index {key : Expr} (h : key.ReadsBack) (rest : List Char) :
    Reaches (accessor expression) ('[' :: (key.display.toList ++ ']' :: rest)) (skipGap rest)
      (Reaching fun e => .index e key.unplaced .unknown) := by
  have hmember : Fails memberAccess ('[' :: (key.display.toList ++ ']' :: rest)) :=
    .rule <| .here fun _ => .bind <| fails_exactly rfl (by rintro _ ⟨⟩; decide)
  refine .orElse_right hmember <| .orElse_left <| .rule <| .here fun p =>
    .char_blanks rfl (h.1 (']' :: rest)) ?_
  refine (h.2 _ (endsExpr_cons rfl rest)).blanks fun a ha => ?_
  rw [skipGap_cons (by decide)]
  refine .char rfl <| .pure ⟨rfl, fun e => ?_⟩
  rw [Expr.unplaced, ha]

/-- Nothing that closes is skipped. -/
theorem skipGap_printedList {β : Type} {printed : β → List Char} {bs : List β} {c : Char}
    (hc : isClosing c = true)
    (h : ∀ b ∈ bs, ∀ rest, skipGap (printed b ++ rest) = printed b ++ rest) (rest : List Char) :
    skipGap (printedList printed bs ++ c :: rest) = printedList printed bs ++ c :: rest := by
  cases bs with
  | nil => exact skipGap_cons (isGap_of_isClosing hc) rest
  | cons b bs =>
    rw [printedList, List.append_assoc]
    exact h b List.mem_cons_self _

theorem reaches_call {args : List Expr} (h : ∀ e ∈ args, e.ReadsBack) (rest : List Char) :
    Reaches (accessor expression) ('(' :: ((displayItems args).toList ++ ')' :: rest))
      (skipGap rest) (Reaching fun e => .call e (unplacedItems args) .unknown) := by
  rw [toList_displayItems]
  have hmember : Fails memberAccess
      ('(' :: (printedList (fun e => e.display.toList) args ++ ')' :: rest)) :=
    .rule <| .here fun _ => .bind <| fails_exactly rfl (by rintro _ ⟨⟩; decide)
  have hindex : Fails (indexAccess expression)
      ('(' :: (printedList (fun e => e.display.toList) args ++ ')' :: rest)) :=
    .rule <| .here fun _ => .bind <| fails_exactly rfl (by rintro _ ⟨⟩; decide)
  refine .orElse_right hmember <| .orElse_right hindex <| .orElse_left <| .rule <|
    .here fun p => .char_blanks rfl (skipGap_printedList rfl (fun e he => (h e he).1) rest) ?_
  have hargs : Reaches (optional (separated expression))
      (printedList (fun e => e.display.toList) args ++ ')' :: rest) (')' :: rest)
      fun x => List.Forall₂ (fun b a => a.unplaced = b.unplaced) args (x.getD []) := by
    refine reaches_optional rfl (.bind (fails_expression rfl)) ?_
    rintro e es rfl
    exact reaches_separated rfl (by decide) h
  refine hargs.blanks fun x hx => .char rfl <| .pure ⟨rfl, fun e => ?_⟩
  rw [Expr.unplaced, unplacedItems_eq, unplacedItems_eq, map_eq_of_forall₂_eq hx]

end

/-! ## Primaries -/

/-- A primary that is read back is read back with what is reached from it. -/
theorem Expr.OperandReadsBack.of_primary {o : Expr}
    (hgap : ∀ rest, skipGap (o.display.toList ++ rest) = o.display.toList ++ rest)
    (hsign : ∀ rest, EndsLexeme rest → Fails unarySign (o.display.toList ++ rest))
    (h : ∀ rest, EndsLexeme rest → Scans (primary expression) (o.display.toList ++ rest)
      fun a r => a.unplaced = o.unplaced ∧ r = rest) : o.OperandReadsBack where
  gap := hgap
  sign := hsign
  reads := by
    intro rest behind steps hrest hspans
    have hfoldl : ∀ {steps accessors : List (Expr → Expr)} {first e : Expr},
        List.Forall₂ Reaching steps accessors → first.unplaced = e →
          (accessors.foldl (fun e access => access e) first).unplaced =
            steps.foldl (fun e step => step e) e := by
      intro steps accessors first e hall
      induction hall generalizing first e with
      | nil => exact id
      | cons hreach _ ih =>
        rintro rfl
        exact ih (hreach first)
    refine .rule <| .bind (h rest hrest) ?_
    rintro first _ ⟨hfirst, rfl⟩
    exact .blanks <| hspans.reaches_many.map fun accessors haccessors => hfoldl haccessors hfirst

/-- What begins with no character of a word, no sign and no gap. -/
theorem begins_alone {c : Char} (hword : isWordChar c = false) (hminus : c ≠ '-')
    (hgap : isGap c = false) (rest : List Char) :
    skipGap (c :: rest) = c :: rest ∧ Fails unarySign (c :: rest) := by
  refine ⟨skipGap_cons hgap rest, fails_unarySign ?_ ?_⟩
  · exact fails_wordSign _ (endsWord_cons hword rest) (by decide)
  · rintro _ ⟨⟩
    exact hminus

/-- A primary in brackets is read back if it is one primary with what is between them. -/
theorem Expr.OperandReadsBack.of_bracket {o : Expr} {c : Char} {inside : List Char → List Char}
    (hword : isWordChar c = false) (hminus : c ≠ '-') (hgap : isGap c = false)
    (htext : ∀ rest, o.display.toList ++ rest = c :: inside rest)
    (h : ∀ rest, Scans (primary expression) (c :: inside rest)
      fun a r => a.unplaced = o.unplaced ∧ r = rest) : o.OperandReadsBack := by
  refine .of_primary (fun rest => ?_) (fun rest _ => ?_) fun rest _ => ?_
  · rw [htext]
    exact skipGap_cons hgap _
  · rw [htext]
    exact (begins_alone hword hminus hgap _).2
  · rw [htext]
    exact h rest

/-- What begins with a word that is no sign. -/
theorem begins_word {w : String} (hw : w.toList.all isWordChar = true) (hnot : w ≠ "not")
    (hne : w ≠ "") (rest : List Char) : skipGap (w.toList ++ rest) = w.toList ++ rest ∧
      (EndsWord rest → Fails unarySign (w.toList ++ rest)) := by
  cases hlist : w.toList with
  | nil => exact absurd (String.toList_eq_nil_iff.1 hlist) hne
  | cons c cs =>
    have hc : isWordChar c = true := by
      rw [hlist, List.all_cons, Bool.and_eq_true] at hw
      exact hw.1
    refine ⟨skipGap_cons (isGap_of_isWordChar hc) _, fun hrest => ?_⟩
    rw [← hlist]
    refine fails_unarySign ?_ ?_
    · exact .rule <| .bind <| fails_wordThat_word hw hrest (decide_eq_false hnot)
    · rw [hlist]
      rintro _ ⟨⟩ rfl
      cases hc

theorem IsIdentifier.ne_not {w : String} (h : IsIdentifier w) : w ≠ "not" := by
  rintro rfl
  exact absurd h.1 (by decide)

theorem IsIdentifier.ne_empty {w : String} (h : IsIdentifier w) : w ≠ "" := by
  rintro rfl
  exact absurd h.1 (by decide)

theorem operandReadsBack_var {name : String} (h : IsIdentifier name) (p : Position) :
    (Expr.var ⟨name, .global, p⟩).OperandReadsBack := by
  obtain ⟨c, cs, hname, hstart⟩ := h.begins
  refine .of_primary (fun rest => (begins_word h.2 h.ne_not h.ne_empty rest).1)
    (fun rest hrest => (begins_word h.2 h.ne_not h.ne_empty rest).2 hrest.word)
    fun rest hrest => ?_
  have hhead : ∀ c ∈ (name.toList ++ rest).head?, isNameStart c = true := by
    rw [hname]
    rintro _ ⟨⟩
    exact hstart
  have hopen : ∀ d, isNameStart d = false → ∀ c ∈ (name.toList ++ rest).head?, c ≠ d := by
    rintro d hd c hc rfl
    rw [hhead c hc] at hd
    cases hd
  have hliteral : Fails literal (name.toList ++ rest) := by
    obtain ⟨hdigits, htext⟩ := fails_before_word hhead
    refine fails_literal hdigits htext ?_
    rw [takeWhile_append_eq h.2 hrest.word, String.ofList_toList]
    intro hmem
    simp only [List.mem_cons, List.not_mem_nil, or_false] at hmem
    obtain rfl | rfl | rfl := hmem <;> exact absurd h.1 (by decide)
  refine .here fun p => .firstOf [_, _, _] ?_ <|
    .bind (scans_identifier h hrest.word) ?_
  · simp only [List.forall_mem_cons, List.not_mem_nil, false_imp_iff, implies_true, and_true]
    exact ⟨.bind hliteral, .rule <| .here fun _ => .bind <| fails_exactly rfl (hopen _ (by decide)),
      .rule <| .here fun _ => .bind <| fails_exactly rfl (hopen _ (by decide))⟩
  · rintro _ _ ⟨rfl, rfl⟩
    exact .pure ⟨rfl, rfl⟩

/-- The digits of a number are a word that is no sign. -/
theorem begins_number (n : Nat) (rest : List Char) :
    skipGap ((toString n).toList ++ rest) = (toString n).toList ++ rest ∧
      (EndsWord rest → Fails unarySign ((toString n).toList ++ rest)) := by
  have hdigits : (toString n).toList = Nat.toDigits 10 n := by simp
  have hword : (toString n).toList.all isWordChar = true := by
    rw [hdigits]
    refine List.all_eq_true.2 fun c hc => ?_
    simp [isWordChar, Char.isAlphanum, List.all_eq_true.1 (isDigit_toDigits n) c hc]
  refine begins_word hword (fun hnot => ?_) (fun hnil => ?_) rest
  · have hall := isDigit_toDigits n
    rw [← hdigits, hnot] at hall
    exact absurd hall (by decide)
  · rw [hnil] at hdigits
    exact Nat.toDigits_ne_nil hdigits.symm

theorem operandReadsBack_literal {value : Literal} (h : value.Plain) (p : Position) :
    (Expr.literal value p).OperandReadsBack := by
  have hbegins : ∀ rest, skipGap (value.display.toList ++ rest) = value.display.toList ++ rest ∧
      (EndsWord rest → Fails unarySign (value.display.toList ++ rest)) := by
    intro rest
    cases value with
    | null => exact begins_word (by decide) (by decide) (by decide) rest
    | bool b => cases b <;> exact begins_word (by decide) (by decide) (by decide) rest
    | int n =>
      obtain ⟨k, rfl⟩ := Int.eq_ofNat_of_zero_le h
      exact begins_number k rest
    | float x => cases h
    | text s =>
      have hquoted : (Literal.text s).display.toList ++ rest =
          '"' :: (s.toList.flatMap Text.escape ++ '"' :: rest) := by
        rw [Literal.display, Text.quoted, String.toList_ofList]
        simp
      rw [hquoted]
      obtain ⟨hgap, hsign⟩ := begins_alone (c := '"') (by decide) (by decide) (by decide) _
      exact ⟨hgap, fun _ => hsign⟩
  refine .of_primary (fun rest => (hbegins rest).1) (fun rest hrest => (hbegins rest).2 hrest.word)
    fun rest hrest => ?_
  refine .here fun p => .firstOf [] (List.forall_mem_nil _) <| .bind (scans_literal h hrest) ?_
  rintro _ _ ⟨rfl, rfl⟩
  exact .pure ⟨rfl, rfl⟩

theorem operandReadsBack_list {items : List Expr} (h : ∀ e ∈ items, e.ReadsBack) (p : Position) :
    (Expr.list items p).OperandReadsBack := by
  have htext : ∀ rest, (Expr.list items p).display.toList ++ rest =
      '[' :: (printedList (fun e => e.display.toList) items ++ ']' :: rest) := by
    intro rest
    rw [Expr.display, String.toList_append, String.toList_append, toList_displayItems]
    simp
  refine .of_bracket (by decide) (by decide) (by decide) htext fun rest => ?_
  have hitems : Reaches (optional (listed expression))
      (printedList (fun e => e.display.toList) items ++ ']' :: rest) (']' :: rest)
      fun x => List.Forall₂ (fun b a => a.unplaced = b.unplaced) items (x.getD []) := by
    refine reaches_optional rfl (.bind (.bind (fails_expression rfl))) ?_
    rintro e es rfl
    exact reaches_listed rfl (by decide) h
  refine .here fun p => .firstOf [_] (List.forall_mem_singleton.2 (.bind
    (fails_literal_cons (by decide) (by decide) (by decide) _))) ?_
  refine .rule <| .here fun p =>
    .char_blanks rfl (skipGap_printedList rfl (fun e he => (h e he).1) rest) ?_
  refine hitems.blanks fun x hx => .char rfl <| .pure ⟨?_, rfl⟩
  rw [Expr.unplaced, Expr.unplaced, unplacedItems_eq, unplacedItems_eq, map_eq_of_forall₂_eq hx]

theorem readBack_entry {x : String × Expr} (hkey : IsIdentifier x.1) (h : x.2.ReadsBack) :
    ReadBack (mapEntry expression) (fun b a => (a.1, a.2.unplaced) = (b.1, b.2.unplaced))
      entryText x := by
  obtain ⟨key, value⟩ := x
  have htext : ∀ rest, entryText (key, value) ++ rest =
      key.toList ++ ':' :: ' ' :: (value.display.toList ++ rest) := by
    intro rest
    simp [entryText]
  refine ⟨fun rest => ?_, fun rest hrest => ?_⟩
  · rw [htext]
    exact (begins_word hkey.2 hkey.ne_not hkey.ne_empty _).1
  · rw [htext]
    refine .rule <| .bind (.orElse_left (scans_identifier hkey (endsWord_cons (by decide) _))) ?_
    rintro k _ ⟨hk, rfl⟩
    refine .blanks ?_
    rw [skipGap_cons (by decide)]
    refine .char rfl <| .blanks ?_
    have hgap : skipGap (' ' :: (value.display.toList ++ rest)) = value.display.toList ++ rest :=
      h.1 rest
    rw [hgap]
    exact (h.2 rest hrest).map fun a ha => Prod.ext hk ha

theorem operandReadsBack_map {entries : List (String × Expr)}
    (hkeys : ∀ x ∈ entries, IsIdentifier x.1) (h : ∀ x ∈ entries, x.2.ReadsBack) (p : Position) :
    (Expr.map entries p).OperandReadsBack := by
  have htext : ∀ rest, (Expr.map entries p).display.toList ++ rest =
      '\x7b' :: (printedList entryText entries ++ '\x7d' :: rest) := by
    intro rest
    rw [Expr.display, String.toList_append, String.toList_append, toList_displayEntries]
    simp
  have hentry := fun x hx => readBack_entry (hkeys x hx) (h x hx)
  refine .of_bracket (by decide) (by decide) (by decide) htext fun rest => ?_
  have hnone : Fails (mapEntry expression) ('\x7d' :: rest) := by
    refine .rule <| .bind <| .orElse (.rule (fails_wordThat ?_)) (fails_stringLiteral ?_)
    · have hword : EndsWord ('\x7d' :: rest) := endsWord_cons (by decide) rest
      rw [hword.takeWhile_eq]
      decide
    · rintro _ ⟨⟩
      decide
  have hentries : Reaches (optional (listed (mapEntry expression)))
      (printedList entryText entries ++ '\x7d' :: rest) ('\x7d' :: rest)
      fun x => List.Forall₂ (fun b a => (a.1, a.2.unplaced) = (b.1, b.2.unplaced)) entries
        (x.getD []) := by
    refine reaches_optional rfl (.bind (.bind hnone)) ?_
    rintro e es rfl
    exact reaches_listed rfl (by decide) hentry
  have hlist : Fails (listLiteral expression)
      ('\x7b' :: (printedList entryText entries ++ '\x7d' :: rest)) :=
    .rule <| .here fun _ => .bind <| fails_exactly rfl (by rintro _ ⟨⟩; decide)
  refine .here fun p => .firstOf [_, _] (List.forall_mem_cons.2 ⟨.bind
    (fails_literal_cons (by decide) (by decide) (by decide) _),
    List.forall_mem_singleton.2 hlist⟩) ?_
  refine .rule <| .here fun p =>
    .char_blanks rfl (skipGap_printedList rfl (fun x hx => (hentry x hx).1) rest) ?_
  refine hentries.blanks fun x hx => .char rfl <| .pure ⟨?_, rfl⟩
  rw [Expr.unplaced, Expr.unplaced, unplacedEntries_eq, unplacedEntries_eq,
    map_eq_of_forall₂_eq (f := fun x : String × Expr => (x.1, x.2.unplaced)) hx]

/-! ## What is reached -/

section

variable {target : Expr} (h : target.OperandReadsBack)

include h

/-- An access behind an operand that is read back. -/
theorem operandReadsBack_access {o : Expr} (printed : List Char) (step : Expr → Expr)
    (htext : o.display.toList = target.display.toList ++ printed)
    (hunplaced : o.unplaced = step target.unplaced) (hne : printed ≠ [])
    (hends : ∀ rest, EndsLexeme (printed ++ rest) ∧ skipGap (printed ++ rest) = printed ++ rest)
    (haccess : ∀ rest, EndsLexeme rest →
      Reaches (accessor expression) (printed ++ rest) (skipGap rest) (Reaching step)) :
    o.OperandReadsBack where
  gap rest := by
    rw [htext, List.append_assoc]
    exact h.gap _
  sign rest _ := by
    rw [htext, List.append_assoc]
    exact h.sign _ (hends rest).1
  reads := by
    intro rest behind steps hrest hspans
    obtain ⟨hlexeme, hgap⟩ := hends rest
    rw [htext, List.append_assoc, hunplaced]
    refine h.reads (step :: steps) hlexeme ?_
    rw [hgap]
    refine .cons (haccess rest hrest) ?_ hspans
    have hle := length_skipGap_le rest
    have hlength : 0 < printed.length := List.length_pos_iff.2 hne
    rw [List.length_append]
    omega

theorem operandReadsBack_member {name : String} (hname : IsIdentifier name) (p : Position) :
    (Expr.member target name p).OperandReadsBack := by
  refine operandReadsBack_access h ('.' :: name.toList)
    (fun e => .member e name .unknown) ?_ rfl (List.cons_ne_nil _ _)
    (fun rest => ?_) fun rest hrest => reaches_member hname hrest.word
  · simp [Expr.display, String.toList_append]
  · exact ⟨endsLexeme_member hname rest, skipGap_cons (by decide) _⟩

theorem operandReadsBack_index {key : Expr} (hkey : key.ReadsBack) (p : Position) :
    (Expr.index target key p).OperandReadsBack := by
  refine operandReadsBack_access h ('[' :: (key.display.toList ++ [']']))
    (fun e => .index e key.unplaced .unknown) ?_ rfl (List.cons_ne_nil _ _)
    (fun rest => ?_) fun rest _ => ?_
  · simp [Expr.display, String.toList_append]
  · exact ⟨endsLexeme_cons (by decide) (by decide) _, skipGap_cons (by decide) _⟩
  · have hreaches := reaches_index hkey rest
    rwa [List.cons_append, List.append_assoc]

theorem operandReadsBack_call {args : List Expr} (hargs : ∀ e ∈ args, e.ReadsBack)
    (p : Position) : (Expr.call target args p).OperandReadsBack := by
  refine operandReadsBack_access h ('(' :: ((displayItems args).toList ++ [')']))
    (fun e => .call e (unplacedItems args) .unknown) ?_ rfl (List.cons_ne_nil _ _)
    (fun rest => ?_) fun rest _ => ?_
  · simp [Expr.display, String.toList_append]
  · exact ⟨endsLexeme_cons (by decide) (by decide) _, skipGap_cons (by decide) _⟩
  · have hreaches := reaches_call hargs rest
    rwa [List.cons_append, List.append_assoc]

end

/-! ## Expressions -/

/-- The node can be printed and read back. -/
structure Expr.Printable (e : Expr) : Prop where
  asRead : e.AsRead
  bare : e.Bare
  plain : e.Plain

/-- Where no node needs parentheses the tree is graded. -/
theorem Expr.graded_tree {e : Expr} (h : ∀ x ∈ e.nodes, x.Bare) : e.tree.Graded := by
  induction e using Expr.induction with
  | unary op operand p ih =>
    obtain ⟨hnode, hoperand⟩ := List.forall_mem_cons.1 h
    exact ⟨hnode, ih hoperand⟩
  | binary op left right p ihl ihr =>
    obtain ⟨hnode, hboth⟩ := List.forall_mem_cons.1 h
    obtain ⟨hleft, hright⟩ := List.forall_mem_append.1 hboth
    exact ⟨hnode.1, hnode.2, ihl hleft, ihr hright⟩
  | _ => trivial

theorem readsBack_of_printable {e : Expr} (h : ∀ x ∈ e.nodes, x.Printable)
    (hoperands : ∀ o ∈ e.tree.operands, o.OperandReadsBack) : e.ReadsBack :=
  readsBack_of_operands (Expr.graded_tree fun x hx => (h x hx).bare) hoperands

/-- What holds of the nodes of a list holds of the nodes of each item. -/
theorem forall_nodes_of_items {P : Expr → Prop} {es : List Expr}
    (h : ∀ x ∈ nodesOfItems es, P x) : ∀ e ∈ es, ∀ x ∈ e.nodes, P x := by
  rw [nodesOfItems_eq] at h
  exact fun e he x hx => h x (List.mem_flatMap.2 ⟨e, he, hx⟩)

theorem forall_nodes_of_entries {P : Expr → Prop} {xs : List (String × Expr)}
    (h : ∀ x ∈ nodesOfEntries xs, P x) : ∀ y ∈ xs, ∀ x ∈ y.2.nodes, P x := by
  rw [nodesOfEntries_eq] at h
  exact fun y hy x hx => h x (List.mem_flatMap.2 ⟨y, hy, hx⟩)

/-- The operands of an expression whose nodes can be printed are read back. -/
theorem operandsReadBack_of_nodes {e : Expr} (h : ∀ x ∈ e.nodes, x.Printable) :
    ∀ o ∈ e.tree.operands, o.OperandReadsBack := by
  have halone : ∀ {t : Expr}, t.isOperation = false →
      (∀ o ∈ t.tree.operands, o.OperandReadsBack) → t.OperandReadsBack := by
    intro t ht hoperands
    rw [t.tree_eq_operand ht] at hoperands
    exact hoperands t List.mem_cons_self
  induction e using Expr.induction with
  | literal value p =>
    obtain ⟨hread, -, hplain⟩ := h _ List.mem_cons_self
    have hvalue : value.Plain := by
      cases value with
      | int n => exact hread
      | float x => exact hplain
      | text s => exact hplain
      | null => trivial
      | bool b => trivial
    exact List.forall_mem_singleton.2 (operandReadsBack_literal hvalue p)
  | var ref =>
    obtain ⟨⟨hname, hscope⟩, -, -⟩ := h _ List.mem_cons_self
    obtain ⟨name, scope, p⟩ := ref
    obtain rfl := hscope
    exact List.forall_mem_singleton.2 (operandReadsBack_var hname p)
  | member target name p ih =>
    obtain ⟨hnode, htarget⟩ := List.forall_mem_cons.1 h
    have hoperand := halone hnode.bare (ih htarget)
    exact List.forall_mem_singleton.2 (operandReadsBack_member hoperand hnode.asRead p)
  | index target key p ih ihkey =>
    obtain ⟨hnode, hboth⟩ := List.forall_mem_cons.1 h
    obtain ⟨htarget, hkey⟩ := List.forall_mem_append.1 hboth
    have hoperand := halone hnode.bare (ih htarget)
    have hkey := readsBack_of_printable hkey (ihkey hkey)
    exact List.forall_mem_singleton.2 (operandReadsBack_index hoperand hkey p)
  | call callee args p ih ihargs =>
    obtain ⟨hnode, hboth⟩ := List.forall_mem_cons.1 h
    obtain ⟨hcallee, hargs⟩ := List.forall_mem_append.1 hboth
    have hoperand := halone hnode.bare (ih hcallee)
    have hargs := forall_nodes_of_items hargs
    exact List.forall_mem_singleton.2 (operandReadsBack_call hoperand
      (fun e he => readsBack_of_printable (hargs e he) (ihargs e he (hargs e he))) p)
  | list items p ih =>
    obtain ⟨-, hitems⟩ := List.forall_mem_cons.1 h
    have hitems := forall_nodes_of_items hitems
    exact List.forall_mem_singleton.2 (operandReadsBack_list
      (fun e he => readsBack_of_printable (hitems e he) (ih e he (hitems e he))) p)
  | map entries p ih =>
    obtain ⟨hnode, hentries⟩ := List.forall_mem_cons.1 h
    have hentries := forall_nodes_of_entries hentries
    exact List.forall_mem_singleton.2 (operandReadsBack_map hnode.plain
      (fun x hx => readsBack_of_printable (hentries x hx) (ih x hx (hentries x hx))) p)
  | unary op operand p ih =>
    obtain ⟨-, hoperand⟩ := List.forall_mem_cons.1 h
    exact ih hoperand
  | binary op left right p ihl ihr =>
    obtain ⟨-, hboth⟩ := List.forall_mem_cons.1 h
    obtain ⟨hleft, hright⟩ := List.forall_mem_append.1 hboth
    exact List.forall_mem_append.2 ⟨ihl hleft, ihr hright⟩

/-- An expression whose nodes can be printed is read back from what is printed for it. -/
theorem readsBack_of_nodes {e : Expr} (h : ∀ x ∈ e.nodes, x.Printable) : e.ReadsBack :=
  readsBack_of_printable h (operandsReadBack_of_nodes h)

end TemplateEngine
