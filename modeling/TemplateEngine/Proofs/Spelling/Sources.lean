import TemplateEngine.Proofs.Nesting.Flattening
import TemplateEngine.Proofs.Spelling.Tags
import TemplateEngine.Source.Parse

/-!
# How sources are spelled

The pieces of a source stand one behind the other and fill it (`Laid`). A text goes on until a
comment or a tag begins, and every tag is written in its parts between its braces (`Piece.At`). So
for every source that is read, the tags of the block that it is read as are spelled in it, and
nothing else begins like a tag (`tags_are_spelled`). Only the `in` of a `for` may be spelled
`include`.
-/

namespace TemplateEngine

open Scanner

/-! ## Pieces -/

/-- The piece stands between two cursors. -/
def Piece.At (p : Piece) (c d : Cursor) : Prop :=
  c.Behind p.lexeme d ∧
    match p.content with
    | .text => ∀ before rest, p.lexeme = before ++ rest → rest ≠ [] →
        beginsTag (rest ++ d.rest) = false
    | .comment => ∃ body, p.lexeme = "\x7b#".toList ++ body ++ "#\x7d".toList
    | .output value => ∃ b e, c.Behind "\x7b\x7b".toList b ∧ Written [.expr value] b e ∧
        e.Behind "\x7d\x7d".toList d
    | .statement t position => position = c.position ∧ ∃ parts b e, t.Spelled parts ∧
        c.Behind "\x7b%".toList b ∧ Written parts b e ∧ e.Behind "%\x7d".toList d

theorem textBefore_begins (cs : List Char) : textBefore cs <+: cs := by
  induction cs with
  | nil => exact List.prefix_refl _
  | cons c cs ih =>
    unfold textBefore
    split
    · exact List.nil_prefix
    · simpa using ih

/-- In a text before a tag no tag begins. -/
theorem beginsTag_of_textBefore {cs after : List Char} (h : cs = textBefore cs ++ after)
    {before rest : List Char} (hsplit : textBefore cs = before ++ rest) (hrest : rest ≠ []) :
    beginsTag (rest ++ after) = false := by
  induction cs generalizing before with
  | nil => exact absurd (List.append_eq_nil_iff.1 hsplit.symm).2 hrest
  | cons c cs ih =>
    by_cases hbegins : beginsTag (c :: cs) = true
    · have htext : textBefore (c :: cs) = [] := if_pos hbegins
      rw [htext] at hsplit
      exact absurd (List.append_eq_nil_iff.1 hsplit.symm).2 hrest
    · have htext : textBefore (c :: cs) = c :: textBefore cs := if_neg hbegins
      rw [htext] at h hsplit
      have hcs : cs = textBefore cs ++ after := List.cons.inj h |>.2
      cases before with
      | nil =>
        rw [List.nil_append] at hsplit
        rw [← hsplit, ← h]
        simpa using hbegins
      | cons x before => exact ih hcs (List.cons.inj hsplit).2

theorem commentBody_begins (cs : List Char) : commentBody cs <+: cs := by
  fun_induction commentBody cs with
  | case1 => exact List.prefix_refl _
  | case2 => exact List.nil_prefix
  | case3 c rest _ ih => simpa using ih

/-- What is read up to closing braces is written in its parts before them. -/
theorem written_of_braced {α : Type} {S : α → List Part → Prop} {p : Scanner α}
    (hp : p.Writes S) {close : String} {make : α → Content} {content : Content} {b d : Cursor}
    (h : (do
      blanks
      let a ← p
      blanks
      exactly close
      pure (make a) : Scanner Content).Reads b content d) :
    ∃ a ps e, content = make a ∧ S a ps ∧ Written ps b e ∧ e.Behind close.toList d := by
  obtain ⟨_, b', hgap, h⟩ := reads_bind.1 h
  obtain ⟨a, e', ha, h⟩ := reads_bind.1 h
  obtain ⟨_, e, hgap', h⟩ := reads_bind.1 h
  obtain ⟨_, _, hclose, hpure⟩ := reads_bind.1 h
  cases hpure
  obtain ⟨gap, hall, hbefore⟩ := behind_of_blanks hgap
  obtain ⟨gap', hall', hafter⟩ := behind_of_blanks hgap'
  obtain ⟨ps, hps, hwritten⟩ := hp ha
  refine ⟨a, ps, e, rfl, hps, ?_, behind_of_exactly hclose⟩
  have happend := (Written.gap hall hbefore hwritten).append (.nil hall' hafter)
  rwa [List.append_nil] at happend

/-- Where a content was read there is a piece with this content. -/
theorem at_of_content {c d : Cursor} {content : Content}
    (h : (firstOf [commentPiece, outputPiece, statementPiece, textPiece]).Reads c content d) :
    ∃ text, Piece.At ⟨text, content⟩ c d := by
  obtain ⟨p, hp, h⟩ := h.of_firstOf
  simp only [List.mem_cons, List.not_mem_nil, or_false] at hp
  obtain rfl | rfl | rfl | rfl := hp
  · obtain ⟨_, b, hopen, h⟩ := reads_bind.1 (reads_rule.1 h)
    obtain ⟨_, e, hbody, h⟩ := reads_bind.1 h
    obtain ⟨_, e', hclose, hpure⟩ := reads_bind.1 h
    cases hpure
    cases hbody
    have hbehind := (behind_of_exactly hopen).trans
      ((Cursor.behind_drop (commentBody_begins b.rest)).trans (behind_of_exactly hclose))
    exact ⟨_, hbehind, _, (List.append_assoc _ _ _).symm⟩
  · obtain ⟨_, b, hopen, h⟩ := reads_bind.1 (reads_rule.1 h)
    obtain ⟨value, ps, e, rfl, rfl, hwritten, hclose⟩ := written_of_braced spells_expression h
    have hopen := behind_of_exactly hopen
    obtain ⟨text, htext⟩ := hwritten.behind
    exact ⟨_, hopen.trans (htext.trans hclose), b, e, hopen, hwritten, hclose⟩
  · obtain ⟨p, _, hhere, h⟩ := reads_bind.1 (reads_rule.1 h)
    cases hhere
    obtain ⟨_, b, hopen, h⟩ := reads_bind.1 h
    obtain ⟨t, ps, e, rfl, hps, hwritten, hclose⟩ := written_of_braced writes_tag h
    have hopen := behind_of_exactly hopen
    obtain ⟨text, htext⟩ := hwritten.behind
    exact ⟨_, hopen.trans (htext.trans hclose), rfl, ps, b, e, hps, hopen, hwritten, hclose⟩
  · have h := reads_rule.1 h
    unfold Reads at h
    dsimp only at h
    split at h
    · cases h
    · cases h
      have hbehind := Cursor.behind_drop (textBefore_begins c.rest)
      exact ⟨_, hbehind, fun before rest => beginsTag_of_textBefore hbehind.rest⟩

theorem at_of_piece {c d : Cursor} {p : Piece} (h : piece.Reads c p d) : p.At c d := by
  obtain ⟨content, e, hcontent, hlexeme⟩ := reads_bind.1 h
  cases hlexeme
  obtain ⟨text, hat⟩ := at_of_content hcontent
  -- the characters of the piece are those between the cursors
  have htaken : c.rest.take (d.offset - c.offset) = text := by
    rw [hat.1.offset, Nat.add_sub_cancel_left, hat.1.rest, List.take_left]
  rw [htaken]
  exact hat

/-! ## Sources -/

/-- The pieces stand one behind the other between two cursors. -/
inductive Laid : List Piece → Cursor → Cursor → Prop
  | nil (c : Cursor) : Laid [] c c
  | cons {p : Piece} {ps : List Piece} {c d e : Cursor} : p.At c d → Laid ps d e →
    Laid (p :: ps) c e

/-- Pieces that are laid end to end are the text between the cursors. -/
theorem Laid.behind {ps : List Piece} {c d : Cursor} (h : Laid ps c d) :
    c.Behind (ps.flatMap (·.lexeme)) d := by
  induction h with
  | nil c => exact .refl c
  | cons hp _ ih => exact hp.1.trans ih

theorem laid_of_piecesWithin {n : Nat} {ps : List Piece} {c d : Cursor}
    (h : (piecesWithin n).Reads c ps d) : Laid ps c d := by
  induction n generalizing c ps with
  | zero =>
    cases h
    exact .nil _
  | succ n ih =>
    obtain ⟨x, e, hx, h⟩ := reads_bind.1 h
    obtain ⟨p, rfl, hp⟩ | ⟨rfl, he⟩ := hx.of_optional
    · obtain ⟨rest, e', hrest, hpure⟩ := reads_bind.1 h
      cases hpure
      exact .cons (at_of_piece hp) (ih hrest)
    · cases h
      rw [he]
      exact .nil _

theorem laid_of_piecesOf {source : List Char} {ps : List Piece}
    (h : piecesOf source = .ok ps) : ∃ d, Laid ps (.start source) d ∧ d.rest = [] := by
  unfold piecesOf at h
  dsimp only at h
  split at h
  · next last _ heq =>
    cases h
    obtain ⟨ps', e, hps, h⟩ := reads_bind.1 (congrArg Attempt.result heq)
    obtain ⟨_, e', hend, hpure⟩ := reads_bind.1 h
    cases hpure
    have hend := reads_rule.1 hend
    unfold Reads at hend
    dsimp only at hend
    split at hend
    · next hempty =>
      cases hend
      exact ⟨last, laid_of_piecesWithin hps, List.isEmpty_iff.1 hempty⟩
    · cases hend
  · cases h

/-- A source is read as a block step by step, each of which must not fail. -/
theorem parseBlock_eq_ok_iff {source : String} {options : ParserOptions} {b : Block} :
    parseBlock source options = .ok b ↔ ∃ ps block, piecesOf source.toList = .ok ps ∧
      (ps.flatMap (·.content.exprs)).findSome? Expr.oversized? = none ∧
      Block.ofTokens (tokensOf options false ps) = .ok block ∧ strayControl? false block = none ∧
      b = resolveBlock .top block := by
  cases hps : piecesOf source.toList with
  | error p => simp [parseBlock_of_error hps]
  | ok ps =>
    simp only [parseBlock_of_ok hps, bind, Except.bind, Except.ok.injEq, exists_and_left,
      exists_eq_left']
    generalize (ps.flatMap (·.content.exprs)).findSome? Expr.oversized? = large
    cases large with
    | some p => simp
    | none =>
      cases hblock : Block.ofTokens (tokensOf options false ps) with
      | error e => simp
      | ok block =>
        cases hstray : strayControl? false block with
        | some e => simp [hstray]
        | none => simp [pure, Except.pure, hstray, eq_comm]

theorem Template.parse_eq_map (name source : String) (options : ParserOptions) :
    Template.parse name source options = (parseBlock source options).map (⟨0, name, ·⟩) := by
  unfold Template.parse
  cases parseBlock source options <;> rfl

/-- A template is the block that its source is. -/
theorem Template.parse_eq_ok_iff {name source : String} {options : ParserOptions} {t : Template} :
    Template.parse name source options = .ok t ↔
      ∃ b, parseBlock source options = .ok b ∧ t = ⟨0, name, b⟩ := by
  rw [parse_eq_map]
  cases parseBlock source options <;> simp [Except.map, eq_comm]

/-- For every source that is read as a template, pieces fill the source, no text among them holds
what begins like a tag, each tag among them is written in its own parts, except that in a `for` the
word `include` may stand for `in`, and these tags are those of the block, up to the scopes that
names are given then. -/
theorem tags_are_spelled {name source : String} {options : ParserOptions} {t : Template}
    (h : Template.parse name source options = .ok t) :
    ∃ (ps : List Piece) (block : Block) (d : Cursor),
      Laid ps (.start source.toList) d ∧ d.rest = [] ∧
      ps.flatMap (·.lexeme) = source.toList ∧
      (tokensOf options false ps).map Token.forget = blockTokens block ∧
      t.body = resolveBlock .top block := by
  unfold Template.parse at h
  cases hb : parseBlock source options with
  | error e =>
    rw [hb] at h
    cases h
  | ok b =>
    rw [hb] at h
    cases h
    obtain ⟨ps, block, hps, -, hblock, -, rfl⟩ := parseBlock_eq_ok_iff.1 hb
    obtain ⟨d, hlaid, hd⟩ := laid_of_piecesOf hps
    have hsource : source.toList = ps.flatMap (·.lexeme) ++ d.rest := hlaid.behind.rest
    rw [hd, List.append_nil] at hsource
    exact ⟨ps, block, d, hlaid, hd, hsource.symm, (forget_of_ofTokens hblock).2, rfl⟩

/-- A loop over the variable of another one, and a template that is included under a model. -/
def spelledTags : String :=
  "{% for x in [[1], [2]] %}{% for y in x %}{% include p with y %}" ++
    "{% endfor %}{% endfor %}"

theorem spelledTags_are_spelled : ∃ t, Template.parse "t" spelledTags .plain = .ok t ∧
    ∃ (ps : List Piece) (block : Block) (d : Cursor),
      Laid ps (.start spelledTags.toList) d ∧ d.rest = [] ∧
      ps.flatMap (·.lexeme) = spelledTags.toList ∧
      (tokensOf .plain false ps).map Token.forget = blockTokens block ∧
      t.body = resolveBlock .top block := by
  have hread : (Template.parse "t" spelledTags .plain).toBool = true := by decide +kernel
  cases h : Template.parse "t" spelledTags .plain with
  | error e =>
    rw [h] at hread
    cases hread
  | ok t => exact ⟨t, rfl, tags_are_spelled h⟩

/-- A `for` with another word than `in` is read. -/
example : (Template.parse "t" "{% for x include y %}{% endfor %}" .plain).toBool =
    true := by decide +kernel

end TemplateEngine
