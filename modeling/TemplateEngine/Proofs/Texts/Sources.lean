import TemplateEngine.Proofs.Nesting.Reading
import TemplateEngine.Proofs.Nesting.Stages
import TemplateEngine.Proofs.Texts.Trimming

/-!
# Texts of sources

The texts of a template, in the order of writing, are the source without its comments and tags. If
line breaks behind statement tags are dropped, the same sources are read, and the same template
comes out but for those line breaks: a text that stands right behind a statement tag loses one, and
all other texts are as they were (`texts_are_preserved`).
-/

namespace TemplateEngine

open Scanner

/-! ## Pieces -/

/-- The piece is a text. -/
def Piece.isText (p : Piece) : Bool :=
  match p.content with
  | .text => true
  | _ => false

/-- The piece is a statement tag. -/
def Piece.isStatement (p : Piece) : Bool :=
  match p.content with
  | .statement .. => true
  | _ => false

/-- No text is empty, and a comment ends at the first mark that can end it. -/
def Piece.Cut (p : Piece) : Prop :=
  match p.content with
  | .text => p.lexeme ≠ []
  | .comment => ∃ body, p.lexeme = "\x7b#".toList ++ body ++ "#\x7d".toList ∧
      ¬ "#\x7d".toList <:+: body
  | _ => True

/-- Between two cursors stands one text. -/
theorem Cursor.Behind.unique {c d : Cursor} {s t : List Char} (h : c.Behind s d)
    (k : c.Behind t d) : s = t :=
  List.append_cancel_right (h.rest.symm.trans k.rest)

/-- The end of a comment is not in the comment. -/
theorem not_infix_commentBody (cs : List Char) : ¬ "#\x7d".toList <:+: commentBody cs := by
  fun_induction commentBody cs with
  | case1 => simp
  | case2 => simp
  | case3 c rest hrest ih =>
    rw [List.infix_cons_iff]
    rintro (hbegins | hinside)
    · obtain ⟨after, hafter⟩ := hbegins
      obtain ⟨rfl, hbody⟩ := List.cons.inj hafter
      obtain ⟨more, hmore⟩ := commentBody_begins rest
      rw [← hbody] at hmore
      exact hrest _ rfl hmore.symm
    · exact ih hinside

theorem cut_of_piece {c d : Cursor} {p : Piece} (h : piece.Reads c p d) : p.Cut := by
  have hbehind := (at_of_piece h).1
  obtain ⟨content, e, hcontent, hlexeme⟩ := reads_bind.1 h
  cases hlexeme
  obtain ⟨q, hq, hcontent⟩ := hcontent.of_firstOf
  simp only [List.mem_cons, List.not_mem_nil, or_false] at hq
  obtain rfl | rfl | rfl | rfl := hq
  · obtain ⟨_, b, hopen, h⟩ := reads_bind.1 (reads_rule.1 hcontent)
    obtain ⟨_, e, hbody, h⟩ := reads_bind.1 h
    obtain ⟨_, e', hclose, hpure⟩ := reads_bind.1 h
    cases hpure
    cases hbody
    have hcomment := ((behind_of_exactly hopen).trans
      (Cursor.behind_drop (commentBody_begins b.rest))).trans (behind_of_exactly hclose)
    exact ⟨_, hbehind.unique hcomment, not_infix_commentBody b.rest⟩
  · obtain ⟨_, _, -, h⟩ := reads_bind.1 (reads_rule.1 hcontent)
    obtain ⟨value, _, _, rfl, -⟩ := written_of_braced spells_expression h
    trivial
  · obtain ⟨_, _, -, h⟩ := reads_bind.1 (reads_rule.1 hcontent)
    obtain ⟨_, _, -, h⟩ := reads_bind.1 h
    obtain ⟨t, _, _, rfl, -⟩ := written_of_braced writes_tag h
    trivial
  · have h := reads_rule.1 hcontent
    have htext := Cursor.behind_drop (textBefore_begins c.rest)
    unfold Reads at h
    dsimp only at h
    cases htaken : textBefore c.rest with
    | nil =>
      rw [htaken] at h
      cases h
    | cons x taken =>
      rw [htaken] at h htext
      cases h
      exact fun hnil => List.cons_ne_nil x taken ((hbehind.unique htext).symm.trans hnil)

theorem cut_of_piecesWithin {n : Nat} {ps : List Piece} {c d : Cursor}
    (h : (piecesWithin n).Reads c ps d) : ∀ p ∈ ps, p.Cut := by
  induction n generalizing c ps with
  | zero =>
    cases h
    exact nofun
  | succ n ih =>
    obtain ⟨x, e, hx, h⟩ := reads_bind.1 h
    obtain ⟨p, rfl, hp⟩ | ⟨rfl, he⟩ := hx.of_optional
    · obtain ⟨rest, e', hrest, hpure⟩ := reads_bind.1 h
      cases hpure
      exact List.forall_mem_cons.2 ⟨cut_of_piece hp, ih hrest⟩
    · cases h
      exact nofun

theorem cut_of_piecesOf {source : List Char} {ps : List Piece} (h : piecesOf source = .ok ps) :
    ∀ p ∈ ps, p.Cut := by
  unfold piecesOf at h
  dsimp only at h
  split at h
  · next heq =>
    cases h
    obtain ⟨ps', e, hps, h⟩ := reads_bind.1 (congrArg Attempt.result heq)
    obtain ⟨_, _, -, hpure⟩ := reads_bind.1 h
    cases hpure
    exact cut_of_piecesWithin hps
  · cases h

/-! ## Texts of trees -/

/-- The text that a token is. -/
def Token.text? : Token → Option String
  | .text content => some content
  | _ => none

@[simp] theorem filterMap_text?_tag (t : Tag) (position : Position) (rest : List Token) :
    (Token.tag t position :: rest).filterMap Token.text? = rest.filterMap Token.text? := rfl

@[simp] theorem filterMap_text?_output (e : Expr) (rest : List Token) :
    (Token.output e :: rest).filterMap Token.text? = rest.filterMap Token.text? := rfl

@[simp] theorem filterMap_text?_text (content : String) (rest : List Token) :
    (Token.text content :: rest).filterMap Token.text? =
      content :: rest.filterMap Token.text? := rfl

mutual

theorem Stmt.filterMap_tokens : ∀ s : Stmt, s.tokens.filterMap Token.text? = s.texts
  | .text _ | .output _ | .assign .. | .assignGlobal .. | .leave .. | .stop _ | .next _
  | .include .. => rfl
  | .choose bs none => by
    simp [Stmt.tokens, Stmt.texts, filterMap_branchTokens .if bs]
  | .choose bs (some b) => by
    simp [Stmt.tokens, Stmt.texts, filterMap_branchTokens .if bs, filterMap_blockTokens b]
  | .each _ _ b none _ => by
    simp [Stmt.tokens, Stmt.texts, filterMap_blockTokens b]
  | .each _ _ b (some o) _ => by
    simp [Stmt.tokens, Stmt.texts, filterMap_blockTokens b, filterMap_blockTokens o]
  | .repeatWhile _ b _ | .define _ _ _ b _ | .capture _ b => by
    simp [Stmt.tokens, Stmt.texts, filterMap_blockTokens b]

/-- The texts in a block are those among its tokens. -/
theorem filterMap_blockTokens : ∀ b : List Stmt,
    (blockTokens b).filterMap Token.text? = textsOfBlock b
  | [] => rfl
  | s :: rest => by
    simp only [blockTokens, textsOfBlock, List.filterMap_append, s.filterMap_tokens,
      filterMap_blockTokens rest]

theorem filterMap_branchTokens (begins : Expr → Tag) : ∀ bs : List (Expr × List Stmt),
    (branchTokens begins bs).filterMap Token.text? = textsOfBranches bs
  | [] => rfl
  | (_, b) :: rest => by
    simp [branchTokens, textsOfBranches, filterMap_blockTokens b,
      filterMap_branchTokens .elif rest]

end

mutual

theorem Stmt.texts_resolve (scope : Scope) : ∀ s : Stmt, (s.resolve scope).texts = s.texts
  | .text _ | .output _ | .assign .. | .assignGlobal .. | .leave .. | .stop _ | .next _
  | .include .. => rfl
  | .choose bs none => by
    simp only [Stmt.resolve, Stmt.texts, textsOfBranches_resolve scope bs]
  | .choose bs (some b) => by
    simp only [Stmt.resolve, Stmt.texts, textsOfBranches_resolve scope bs,
      textsOfBlock_resolve scope b]
  | .each _ _ b none _ => by simp only [Stmt.resolve, Stmt.texts, textsOfBlock_resolve _ b]
  | .each _ _ b (some o) _ => by
    simp only [Stmt.resolve, Stmt.texts, textsOfBlock_resolve _ b, textsOfBlock_resolve _ o]
  | .repeatWhile _ b _ | .define _ _ _ b _ | .capture _ b => by
    simp only [Stmt.resolve, Stmt.texts, textsOfBlock_resolve _ b]

theorem textsOfBlock_resolve (scope : Scope) :
    ∀ b : List Stmt, textsOfBlock (resolveBlock scope b) = textsOfBlock b
  | [] => rfl
  | s :: rest => by
    simp only [resolveBlock, textsOfBlock, s.texts_resolve scope, textsOfBlock_resolve scope rest]

theorem textsOfBranches_resolve (scope : Scope) : ∀ bs : List (Expr × List Stmt),
    textsOfBranches (resolveBranches scope bs) = textsOfBranches bs
  | [] => rfl
  | (_, b) :: rest => by
    simp only [resolveBranches, textsOfBranches, textsOfBlock_resolve scope b,
      textsOfBranches_resolve scope rest]

end

/-! ## Texts of tokens -/

theorem Token.text?_forget (t : Token) : t.forget.text? = t.text? := by
  cases t <;> rfl

/-- If nothing is trimmed, the texts among the tokens are the texts of the source. -/
theorem filterMap_tokensOf {ps : List Piece} (h : ∀ p ∈ ps, p.Cut) (afterTag : Bool) :
    ((tokensOf ⟨false⟩ afterTag ps).filterMap Token.text?).flatMap String.toList =
      (ps.filter (·.isText)).flatMap (·.lexeme) := by
  induction ps generalizing afterTag with
  | nil => rfl
  | cons p rest ih =>
    obtain ⟨hp, hrest⟩ := List.forall_mem_cons.1 h
    obtain ⟨lexeme, content⟩ := p
    cases content with
    | text =>
      have hne : lexeme.isEmpty = false := List.isEmpty_eq_false_iff.2 hp
      simp [tokensOf, hne, Token.text?, Piece.isText, ih hrest]
    | comment | output | statement => simp [tokensOf, Token.text?, Piece.isText, ih hrest]

/-- Of every text among the pieces, whether the piece right before it is a statement tag. The flag
says so of what stands before all of them. -/
def followTags (afterTag : Bool) (ps : List Piece) : List Bool :=
  ((afterTag :: ps.map (·.isStatement)).zip ps).filterMap fun x =>
    if x.2.isText then some x.1 else none

theorem followTags_cons (afterTag : Bool) (p : Piece) (rest : List Piece) :
    followTags afterTag (p :: rest) =
      (if p.isText then [afterTag] else []) ++ followTags p.isStatement rest := by
  cases h : p.isText <;> simp [followTags, h]

/-- Trimming the source trims the tokens that follow statement tags. -/
theorem trimTokens_tokensOf {ps : List Piece} (h : ∀ p ∈ ps, p.Cut) (afterTag : Bool) :
    trimTokens (followTags afterTag ps) (tokensOf ⟨false⟩ afterTag ps) =
      (tokensOf ⟨true⟩ afterTag ps, []) := by
  induction ps generalizing afterTag with
  | nil => rfl
  | cons p rest ih =>
    obtain ⟨hp, hrest⟩ := List.forall_mem_cons.1 h
    rw [followTags_cons]
    obtain ⟨lexeme, content⟩ := p
    cases content with
    | text =>
      have hne : lexeme.isEmpty = false := List.isEmpty_eq_false_iff.2 hp
      have hrest := ih hrest false
      cases afterTag with
      | false =>
        simp [tokensOf, hne, Piece.isText, Piece.isStatement, trimTokens, trimText, hrest]
      | true =>
        by_cases hempty : withoutLineBreak lexeme = []
        · simp [tokensOf, hne, Piece.isText, Piece.isStatement, trimTokens, trimText, hrest,
            dropLineBreak_eq, hempty]
        · simp [tokensOf, hne, Piece.isText, Piece.isStatement, trimTokens, trimText, hrest,
            dropLineBreak_eq, hempty]
    | comment | output | statement =>
      simp [tokensOf, Piece.isText, Piece.isStatement, trimTokens, ih hrest]

theorem trimTokens_forget (flags : List Bool) (ts : List Token) :
    trimTokens flags (ts.map Token.forget) =
      ((trimTokens flags ts).1.map Token.forget, (trimTokens flags ts).2) := by
  induction ts generalizing flags with
  | nil => rfl
  | cons t rest ih =>
    cases t <;> simp [trimTokens, Token.forget, ih, Function.comp_def]

/-! ## Sources -/

theorem trimmed_ofTokens {ps : List Piece} (h : ∀ p ∈ ps, p.Cut) {block : Block}
    (hblock : Block.ofTokens (tokensOf ⟨false⟩ false ps) = .ok block) :
    Block.ofTokens (tokensOf ⟨true⟩ false ps) = .ok (trimBlock (followTags false ps) block).1 := by
  obtain ⟨hread, htokens⟩ := forget_of_ofTokens hblock
  refine ofTokens_of_forget (blockAsRead_trim _ block hread) ?_
  have htrim := tokens_trimBlock (followTags false ps) block
  rw [← htokens, trimTokens_forget, trimTokens_tokensOf h] at htrim
  exact congrArg Prod.fst htrim

/-- Dropping line breaks behind statement tags trims the block that a source is. -/
theorem parseBlock_trimmed {source : String} {ps : List Piece}
    (h : piecesOf source.toList = .ok ps) :
    parseBlock source ⟨true⟩ =
      (parseBlock source ⟨false⟩).map fun b => (trimBlock (followTags false ps) b).1 := by
  have hcut := cut_of_piecesOf h
  rw [parseBlock_of_ok h, parseBlock_of_ok h]
  simp only [bind, Except.bind]
  split
  · rfl
  · dsimp only [pure, Except.pure]
    cases hblock : Block.ofTokens (tokensOf ⟨false⟩ false ps) with
    | error e =>
      rw [(ofTokens_tokensOf_eq_error_iff _ ⟨true⟩ ps e).1 hblock]
      rfl
    | ok block =>
      rw [trimmed_ofTokens hcut hblock]
      dsimp only
      rw [strayControl?_trimBlock]
      cases strayControl? false block with
      | some e => rfl
      | none => exact congrArg Except.ok (congrArg Prod.fst (trimBlock_resolve .top _ block)).symm

/-- Whether or not line breaks behind statement tags are dropped, a source is refused with the same
error, or it is read. Then its pieces fill it; if nothing is dropped, the texts of the template in
the order of writing are what is left of the source without comments, output tags and statement
tags; and otherwise the same template comes out but for its texts: each text that stands right
behind a statement tag has lost one line break at its front, if it has one there, and is gone if
nothing is left of it, and all other texts are as they were. -/
theorem texts_are_preserved (name source : String) :
    (∃ e, Template.parse name source ⟨false⟩ = .error e ∧
      Template.parse name source ⟨true⟩ = .error e) ∨
    ∃ (t : Template) (ps : List Piece) (d : Cursor),
      Template.parse name source ⟨false⟩ = .ok t ∧
      Template.parse name source ⟨true⟩ =
        .ok { t with body := (trimBlock (followTags false ps) t.body).1 } ∧
      piecesOf source.toList = .ok ps ∧ (∀ p ∈ ps, p.Cut) ∧
      Laid ps (.start source.toList) d ∧ d.rest = [] ∧
      ps.flatMap (·.lexeme) = source.toList ∧
      (textsOfBlock t.body).flatMap String.toList = (ps.filter (·.isText)).flatMap (·.lexeme) := by
  cases hps : piecesOf source.toList with
  | error p =>
    refine .inl ⟨⟨p, .grammar⟩, ?_, ?_⟩ <;>
    · rw [Template.parse_eq_map, parseBlock_of_error hps]
      rfl
  | ok ps =>
    simp only [Template.parse_eq_map, parseBlock_trimmed hps]
    cases hblock : parseBlock source ⟨false⟩ with
    | error e => exact .inl ⟨e, rfl, rfl⟩
    | ok b =>
      obtain ⟨ps', block, hps', -, hread, -, rfl⟩ := parseBlock_eq_ok_iff.1 hblock
      cases hps.symm.trans hps'
      obtain ⟨d, hlaid, hd⟩ := laid_of_piecesOf hps
      have hsource : source.toList = ps.flatMap (·.lexeme) ++ d.rest := hlaid.behind.rest
      rw [hd, List.append_nil] at hsource
      refine .inr ⟨_, ps, d, rfl, rfl, rfl, cut_of_piecesOf hps, hlaid, hd, hsource.symm, ?_⟩
      calc (textsOfBlock (resolveBlock .top block)).flatMap String.toList
          = ((blockTokens block).filterMap Token.text?).flatMap String.toList := by
            rw [textsOfBlock_resolve, filterMap_blockTokens]
        _ = ((tokensOf ⟨false⟩ false ps).filterMap Token.text?).flatMap String.toList := by
            rw [← (forget_of_ofTokens hread).2, List.filterMap_map]
            simp only [Function.comp_def, Token.text?_forget]
        _ = (ps.filter (·.isText)).flatMap (·.lexeme) :=
            filterMap_tokensOf (cut_of_piecesOf hps) false

end TemplateEngine
