import TemplateEngine.Proofs.Printing.Sources

/-!
# Every text can be quoted

With a backslash before every backslash and every quote of the kind, a text is written between
quotes (`Quote.written`), whatever else is in it. That is read back as the text itself, and the
literal ends at its closing quote, also where braces of tags stand between the quotes. What any
quoted text is read as is told by what its body writes (`quoting_writes_every_text`).
-/

namespace TemplateEngine

open Scanner

namespace Quote

/-- A character between quotes, with a backslash before it if it would not stand for itself. -/
def guarded (q : Quote) (c : Char) : List Char :=
  if c = '\\' ∨ c = q.char then ['\\', c] else [c]

/-- The text between quotes. -/
def written (q : Quote) (s : String) : String :=
  String.ofList (q.char :: (s.toList.flatMap q.guarded ++ [q.char]))

variable (q : Quote)

theorem toList_written (s : String) :
    (q.written s).toList = q.char :: (s.toList.flatMap q.guarded ++ [q.char]) :=
  String.toList_ofList

/-- Behind a backslash, a backslash and a quote stand for themselves. -/
theorem escaped_of_guarded {c : Char} (h : c = '\\' ∨ c = q.char) : escaped c = c := by
  obtain rfl | rfl := h
  · rfl
  · cases q <;> rfl

theorem decodes_guarded (text : List Char) : Decodes q (text.flatMap q.guarded) text := by
  induction text with
  | nil => exact .nil
  | cons c text ih =>
    rw [List.flatMap_cons]
    by_cases h : c = '\\' ∨ c = q.char
    · have hescape := Decodes.escape c ih
      rw [q.escaped_of_guarded h] at hescape
      rwa [guarded, if_pos h]
    · rw [guarded, if_neg h]
      rw [not_or] at h
      exact .plain h.2 h.1 ih

end Quote

/-! ## Reading -/

section

variable {q : Quote} {body rest : List Char} {s : String}

theorem scans_primary_text (h : Decodes q body s.toList) (deeper : Scanner Expr)
    (rest : List Char) : Scans (primary deeper) (q.char :: (body ++ [q.char]) ++ rest)
      fun a r => r = rest ∧ ∃ p, a = .literal (.text s) p := by
  refine .here fun p => .firstOf [] (List.forall_mem_nil _) ?_
  refine .bind (scans_literal_text h rest) ?_
  rintro _ r ⟨rfl, rfl⟩
  exact .pure ⟨rfl, p, rfl⟩

/-- Neither a gap nor a sign begins with a quote. -/
theorem Quote.begins (q : Quote) (rest : List Char) :
    skipGap (q.char :: rest) = q.char :: rest ∧ Fails unarySign (q.char :: rest) := by
  cases q <;> exact begins_alone (by decide) (by decide) (by decide) rest

/-- Where none begins none of many is read. -/
theorem reaches_many_nil {α : Type} {p : Scanner α} {cs : List Char} (h : Fails p cs)
    (hgap : skipGap cs = cs) : Reaches (many p) cs cs fun xs => xs = [] :=
  (Spans.nil (Q := Eq) h hgap).reaches_many.mono fun _ hxs => List.forall₂_nil_left_iff.1 hxs

/-- Where no access and no operator follows, a quoted text is the whole expression. -/
theorem reaches_expression_text (h : Decodes q body s.toList)
    (haccess : Fails (accessor expression) (skipGap rest))
    (hlink : Fails (link expression) (skipGap rest)) :
    Reaches expression (q.char :: (body ++ [q.char]) ++ rest) (skipGap rest)
      fun a => ∃ p, a = .literal (.text s) p := by
  obtain ⟨hgap, hsign⟩ := q.begins (body ++ [q.char] ++ rest)
  have hrest := skipGap_skipGap rest
  have hoperand : Reaches (operand expression) (q.char :: (body ++ [q.char]) ++ rest)
      (skipGap rest) fun a => ∃ p, a = .literal (.text s) p := by
    refine .rule <| .bind (scans_primary_text h expression rest) ?_
    rintro _ _ ⟨rfl, p, rfl⟩
    refine .blanks <| (reaches_many_nil haccess hrest).map ?_
    rintro _ rfl
    exact ⟨p, rfl⟩
  have hchain : Reaches (chain expression) (q.char :: (body ++ [q.char]) ++ rest) (skipGap rest)
      fun x => ∃ p, x = ⟨[], .literal (.text s) p, []⟩ := by
    refine .rule <| (reaches_many_nil hsign hgap).blanks ?_
    rintro _ rfl
    refine hoperand.blanks ?_
    rintro _ ⟨p, rfl⟩
    refine (reaches_many_nil hlink hrest).map ?_
    rintro _ rfl
    exact ⟨p, rfl⟩
  rw [expression_eq]
  refine hchain.map ?_
  rintro _ ⟨p, rfl⟩
  exact ⟨p, rfl⟩

end

/-- Between doubled braces a quoted text is a source of one output. -/
theorem parse_written (q : Quote) (s name : String) (options : ParserOptions) :
    ∃ p, Template.parse name (braced (q.written s)) options =
      .ok ⟨0, name, [.output (.literal (.text s) p)]⟩ := by
  have hends := endsExpr_closingBraces
  obtain ⟨c, rest, hrest, hclosing⟩ := hends.closed
  have hlink : Fails (link expression) (skipGap (' ' :: "\x7d\x7d".toList)) := by
    rw [hrest]
    exact .bind (fails_binarySign hclosing)
  have hreaches := reaches_expression_text (q.decodes_guarded s.toList)
    (fails_accessor hends.endsOperand.access) hlink
  have hgap := (q.begins (s.toList.flatMap q.guarded ++ [q.char] ++ ' ' :: "\x7d\x7d".toList)).1
  rw [← q.toList_written] at hreaches
  obtain ⟨lexeme, _, hpieces, p, rfl⟩ :=
    piecesOf_of_reaches (by rw [q.toList_written]; exact hgap) hreaches
  exact ⟨p, parse_of_piecesOf hpieces rfl⟩

/-- Every text is written by either kind of quotes around it, with a backslash before every
backslash and every quote of the kind: that is a source of an output of the text; wherever it
stands as an operand, it is read as the text up to the closing quote, whatever follows; and it is
the whole expression where no access and no operator follows. And a quoted text is read just where
a body stands between quotes of one kind, as the text that the body writes character by
character. -/
theorem quoting_writes_every_text :
    (∀ (q : Quote) (s : String),
      (∀ name options, ∃ p, Template.parse name (braced (q.written s)) options =
        .ok ⟨0, name, [.output (.literal (.text s) p)]⟩) ∧
      (∀ rest, Scans (primary expression) ((q.written s).toList ++ rest)
        fun e r => r = rest ∧ ∃ p, e = .literal (.text s) p) ∧
      ∀ rest, Fails (accessor expression) (skipGap rest) →
        Fails (link expression) (skipGap rest) →
        Reaches expression ((q.written s).toList ++ rest) (skipGap rest)
          fun e => ∃ p, e = .literal (.text s) p) ∧
    ∀ (c : Cursor) (s : String) (d : Cursor), stringLiteral.Reads c s d ↔
      ∃ q body, Decodes q body s.toList ∧ c.Behind (q.char :: (body ++ [q.char])) d := by
  refine ⟨fun q s => ⟨parse_written q s, fun rest => ?_, fun rest haccess hlink => ?_⟩,
    fun c s d => reads_stringLiteral_iff⟩
  · rw [q.toList_written]
    exact scans_primary_text (q.decodes_guarded s.toList) expression rest
  · rw [q.toList_written]
    exact reaches_expression_text (q.decodes_guarded s.toList) haccess hlink

/-- Braces between quotes do not end a tag. -/
example : ((Template.parse "t" (braced "'%\x7d\x7d\x7b#'") .plain).toOption.bind
    Template.expression?).any (·.display = "\"%\x7d\x7d\x7b#\"") = true := by
  decide +kernel

end TemplateEngine
