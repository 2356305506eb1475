import TemplateEngine.Proofs.Grammar.Tags

/-!
# Sources in the grammar

A source has a tree just where it is made of pieces, and the phrases of the tree stand for the
pieces, with the end of the source behind them (`pieces_or_none`). So the tokens that are built of
the tree are those of the pieces, unless an integer is out of range (`IsSource.tokens`).
-/

namespace TemplateEngine

open Scanner

variable {n : Nat} {c d : Cursor}

/-! ## Text and comments -/

section

variable {stop : Peg} {stops : List Char → Bool} {before : List Char → List Char}

/-- What stands before the first place where a pattern matches. -/
structure StandsBefore (stop : Peg) (stops : List Char → Bool) (before : List Char → List Char) :
    Prop where
  halts : ∀ c : Cursor, stops c.rest = true → ∃ ps d, Matches .atomic stop c (some (ps, d))
  goes : ∀ c : Cursor, stops c.rest = false → Matches .atomic stop c none
  nil : before [] = []
  cons : ∀ x rest, before (x :: rest) = if stops (x :: rest) then [] else x :: before rest

theorem StandsBefore.begins (h : StandsBefore stop stops before) (text : List Char) :
    before text <+: text := by
  induction text with
  | nil => rw [h.nil]
  | cons x rest ih =>
    rw [h.cons]
    split
    · exact List.nil_prefix
    · exact (List.prefix_cons_inj x).2 ih

theorem StandsBefore.step (h : StandsBefore stop stops before) {x : Char} {rest : List Char}
    (hrest : c.rest = x :: rest) :
    Matches .atomic (.seq (.notAhead stop) .any) c
      (if stops (x :: rest) then none else some ([], c.drop [x])) := by
  split
  · next hstops =>
    obtain ⟨ps, d, hstop⟩ := h.halts c (hrest ▸ hstops)
    exact .noFirst (.someAhead hstop)
  · next hstops =>
    have hgoes : Matches .atomic stop c none := h.goes c (by rw [hrest]; simpa using hstops)
    have hany : Matches .atomic .any c (some ([], c.drop [x])) := .char_cons hrest rfl
    exact .seq (.notAhead hgoes) hany

theorem StandsBefore.end (h : StandsBefore stop stops before) (hrest : c.rest = []) :
    Matches .atomic (.seq (.notAhead stop) .any) c none := by
  cases hstops : stops c.rest with
  | true =>
    obtain ⟨ps, d, hstop⟩ := h.halts c hstops
    exact .noFirst (.someAhead hstop)
  | false => exact .noSecond (.notAhead (h.goes c hstops)) (.noChar_nil hrest)

/-- Characters are taken up to the place, by induction on the rest. -/
theorem StandsBefore.many (h : StandsBefore stop stops before) (c : Cursor) :
    Matches .atomic (.many (.seq (.notAhead stop) .any)) c
      (some ([], c.drop (before c.rest))) := by
  refine Matches.many_of_further (by decide) ?_
  generalize hrest : c.rest = text
  induction text generalizing c with
  | nil =>
    rw [h.nil, c.drop_nil]
    exact .furtherEnds (h.end hrest)
  | cons x rest ih =>
    have hstep := h.step hrest
    rw [h.cons]
    split at hstep
    · next hstops =>
      rw [if_pos hstops, c.drop_nil]
      exact .furtherEnds hstep
    · next hstops =>
      rw [if_neg hstops, ← Cursor.drop_one_drop hrest (h.begins rest)]
      exact .further hstep (ih (c.drop [x]) (Cursor.rest_drop_one hrest))

end

theorem beginsTag_iff (text : List Char) : beginsTag text = true ↔
    ∃ w ∈ ["\x7b\x7b", "\x7b%", "\x7b#"], w.toList <+: text := by
  have hwords : (∃ w ∈ ["\x7b\x7b", "\x7b%", "\x7b#"], w.toList <+: text) ↔
      ['\x7b', '\x7b'] <+: text ∨ ['\x7b', '%'] <+: text ∨ ['\x7b', '#'] <+: text := by
    simp only [List.mem_cons, List.not_mem_nil, or_false, exists_eq_or_imp, exists_eq_left]
    rfl
  rw [hwords]
  match text with
  | [] => simp [beginsTag]
  | [x] => simp [beginsTag, List.cons_prefix_cons]
  | x :: y :: rest =>
    by_cases hx : x = '\x7b'
    · subst hx
      simp only [beginsTag, Bool.or_eq_true, decide_eq_true_eq, List.cons_prefix_cons, true_and,
        List.nil_prefix, and_true, or_assoc]
      simp only [eq_comm]
    · have hno : beginsTag (x :: y :: rest) = false := by
        unfold beginsTag
        split
        · next h => exact absurd (List.cons.inj h).1 hx
        · rfl
      simp [hno, List.cons_prefix_cons, Ne.symm hx]

theorem commentBody_cons (x : Char) (rest : List Char) : commentBody (x :: rest) =
    if "#\x7d".toList.isPrefixOf (x :: rest) then [] else x :: commentBody rest := by
  have hmark : "#\x7d".toList = ['#', '\x7d'] := rfl
  split
  · next h =>
    obtain ⟨more, hmore⟩ := List.isPrefixOf_iff_prefix.1 h
    rw [← hmore, hmark]
    rfl
  · next h =>
    rw [commentBody]
    rintro _ rfl rfl
    exact h rfl

/-- The characters before a tag or a comment. -/
theorem standsBefore_text : StandsBefore
    (.firstOf [.text "\x7b\x7b", .text "\x7b%", .text "\x7b#"]) beginsTag textBefore where
  halts c h := by
    obtain ⟨w, hw, hbegins⟩ := (beginsTag_iff c.rest).1 h
    obtain ⟨hnone, -⟩ | ⟨_, _, _, -, -, -, hmatches⟩ := matches_firstOf_texts .atomic _ c
    · exact absurd hbegins (hnone w hw)
    · exact ⟨_, _, hmatches⟩
  goes c h := by
    obtain ⟨-, hmatches⟩ | ⟨_, w, _, hwords, -, hbegins, -⟩ :=
      matches_firstOf_texts .atomic ["\x7b\x7b", "\x7b%", "\x7b#"] c
    · exact hmatches
    · rw [(beginsTag_iff c.rest).2 ⟨w, hwords ▸ by simp, hbegins⟩] at h
      cases h
  nil := rfl
  cons x rest := rfl

/-- The characters before the end of a comment. -/
theorem standsBefore_comment : StandsBefore (.text "#\x7d")
    (fun text => "#\x7d".toList.isPrefixOf text) commentBody where
  halts c h := ⟨_, _, .text (List.isPrefixOf_iff_prefix.1 h)⟩
  goes c h := .noText fun hbegins => by
    rw [List.isPrefixOf_iff_prefix.2 hbegins] at h
    cases h
  nil := rfl
  cons := commentBody_cons

/-! ## Pieces -/

/-- The phrase stands for the piece. -/
inductive IsPiece : Phrase → Piece → Prop
  | text {p : Position} {lexeme : List Char} : IsPiece ⟨.text, p, lexeme, []⟩ ⟨lexeme, .text⟩
  | comment {p : Position} {lexeme : List Char} :
    IsPiece ⟨.comment, p, lexeme, []⟩ ⟨lexeme, .comment⟩
  | output {p : Position} {lexeme : List Char} {part : Phrase} {e : Expr} : IsExpr part e →
    IsPiece ⟨.outputTag, p, lexeme, [part]⟩ ⟨lexeme, .output e⟩
  | statement {p : Position} {lexeme : List Char} {part : Phrase} {tag : Tag} : IsTag part tag →
    IsPiece ⟨.statementTag, p, lexeme, [part]⟩ ⟨lexeme, .statement tag p⟩

/-- The phrase stands for a piece that reaches from one cursor to the other. -/
def IsContent (c : Cursor) (ps : List Phrase) (d : Cursor) (content : Content) : Prop :=
  ∃ p, ps = [p] ∧ IsPiece p ⟨c.rest.take (d.offset - c.offset), content⟩

theorem follows_commentPiece : Follows n .close (.rule .comment) commentPiece IsContent := by
  have hbody : Follows n .atomic (.many (.seq (.notAhead (.text "#\x7d")) .any))
      (fun c => ⟨some ((), c.drop (commentBody c.rest)), 0⟩) fun _ ps _ _ => ps = [] :=
    fun c _ => .inr ⟨(), _, [], rfl, standsBefore_comment.many c, rfl⟩
  refine .rule (.touch (by decide) (.exactly "\x7b#") ?_)
  rintro c _ _ _ ⟨rfl, -⟩
  refine .touch (by decide) hbody ?_
  rintro _ _ _ _ rfl
  refine (Follows.exactly "#\x7d").map ?_
  rintro _ _ d _ ⟨rfl, -⟩ - -
  exact ⟨_, rfl, .comment⟩

theorem follows_outputPiece : Follows n .close (.rule .outputTag) outputPiece IsContent := by
  refine .rule (.seq (.exactly "\x7b\x7b") ?_)
  rintro c _ _ _ ⟨rfl, -⟩
  refine .seq (follows_oneExpr n) ?_
  rintro _ _ _ e ⟨p, rfl, he⟩
  refine (Follows.exactly "\x7d\x7d").map ?_
  rintro _ _ d _ ⟨rfl, -⟩
  exact ⟨_, rfl, .output he⟩

theorem follows_statementPiece :
    Follows n .close (.rule .statementTag) statementPiece IsContent := by
  refine .rule (.here fun position => .seq (.exactly "\x7b%") ?_)
  rintro c _ _ _ ⟨rfl, -⟩
  refine .seq follows_tag ?_
  rintro _ _ _ t (_ | ⟨ht, _ | _⟩)
  refine (Follows.exactly "%\x7d").map ?_
  rintro _ _ d _ ⟨rfl, -⟩ rfl
  exact ⟨_, rfl, .statement ht⟩

theorem follows_textPiece : Follows n .close (.rule .text) textPiece IsContent := by
  refine .rule fun c _ => ?_
  unfold Reads
  dsimp only
  cases hrest : c.rest with
  | nil => exact .inl ⟨rfl, .noFirst (standsBefore_text.end hrest)⟩
  | cons x rest =>
    have hstep := standsBefore_text.step hrest
    rw [standsBefore_text.cons]
    split at hstep
    · next hstops =>
      rw [if_pos hstops]
      exact .inl ⟨rfl, .noFirst hstep⟩
    · next hstops =>
      have hmany := standsBefore_text.many (c.drop [x])
      rw [Cursor.rest_drop_one hrest,
        Cursor.drop_one_drop hrest (standsBefore_text.begins rest)] at hmany
      rw [if_neg hstops]
      exact .inr ⟨_, _, _, rfl, .seq hstep hmany, _, rfl, .text⟩

/-- A piece. -/
theorem follows_piece : Follows n .close .token piece
    fun _ ps _ p => List.Forall₂ IsPiece ps [p] := by
  intro c hc
  have hcontent : Follows n .close .token
      (firstOf [commentPiece, outputPiece, statementPiece, textPiece]) IsContent :=
    .more follows_commentPiece <| .more follows_outputPiece <| .more follows_statementPiece <|
      .one follows_textPiece
  obtain ⟨hp, ha⟩ | ⟨content, d, _, hp, ha, p, rfl, hpiece⟩ := hcontent c hc
  · exact .inl ⟨(result_bind _ _ c).trans (by rw [hp]; rfl), ha⟩
  · exact .inr ⟨_, d, _, reads_bind.2 ⟨content, d, hp, rfl⟩, ha, .cons hpiece .nil⟩

theorem eats_token : Peg.token.Eats .close := by
  refine .firstOf ?_
  simp only [List.forall_mem_cons]
  exact ⟨.rule (.seq (.text (by decide +kernel))), .rule (.seq (.text (by decide +kernel))),
    .rule (.seq (.text (by decide +kernel))), .rule (.seq (.behind (.char _))),
    List.forall_mem_nil _⟩

/-- Pieces one after the other, by induction on the room: every piece takes a character. -/
theorem pieces_further (room : Nat) (c : Cursor) (h : c.rest.length ≤ room) :
    ∃ pieces d ps, (piecesWithin room).Reads c pieces d ∧
      Matches .close (.further .token) c (some (ps, d)) ∧ List.Forall₂ IsPiece ps pieces := by
  induction room generalizing c with
  | zero =>
    obtain ⟨-, ha⟩ | ⟨_, _, _, -, ha, -⟩ := follows_piece c (Nat.lt_succ_self _)
    · exact ⟨[], c, [], rfl, .furtherEnds ha, .nil⟩
    · have heats := eats_token ha
      omega
  | succ room ih =>
    have hresult := result_optional piece c
    obtain ⟨hp, ha⟩ | ⟨x, d, ps, hp, ha, hx⟩ := follows_piece c (Nat.lt_succ_self _)
    · rw [hp] at hresult
      exact ⟨[], c, [], reads_bind.2 ⟨_, _, hresult, rfl⟩, .furtherEnds ha, .nil⟩
    · rw [show (piece c).result = some (x, d) from hp] at hresult
      have heats := eats_token ha
      obtain ⟨xs, e, qs, hxs, hfurther, hpieces⟩ := ih d (by omega)
      exact ⟨x :: xs, e, ps ++ qs,
        reads_bind.2 ⟨_, _, hresult, reads_bind.2 ⟨_, _, hxs, rfl⟩⟩,
        .further ha hfurther, List.rel_append hx hpieces⟩

/-! ## Sources -/

/-- The tree holds phrases that stand for the pieces, and behind them the end of the source. -/
def IsSource (tree : Phrase) (pieces : List Piece) : Prop :=
  tree.rule = .template ∧ ∃ ps last, tree.parts = ps ++ [last] ∧ List.Forall₂ IsPiece ps pieces ∧
    last.rule = .endOfSource ∧ last.parts = []

theorem result_endOfSource (c : Cursor) :
    (endOfSource c).result = if c.rest = [] then some ((), c) else none := by
  refine (result_rule _ c).trans ?_
  simp only [List.isEmpty_iff]
  split <;> rfl

/-- The pieces that are read are those of the text if nothing is left behind them. -/
theorem piecesOf_of_reads {text : List Char} {pieces : List Piece} {d : Cursor}
    (h : (piecesWithin text.length).Reads (.start text) pieces d) :
    (d.rest = [] → piecesOf text = .ok pieces) ∧
      (d.rest ≠ [] → ∃ p, piecesOf text = .error p) := by
  have hall : ((piecesWithin text.length >>= fun pieces => endOfSource >>= fun _ =>
      (pure pieces : Scanner (List Piece))) (.start text)).result =
        if d.rest = [] then some (pieces, d) else none := by
    rw [result_bind, show (piecesWithin _ _).result = some (pieces, d) from h,
      Option.bind_some, result_bind, result_endOfSource]
    split <;> rfl
  unfold piecesOf
  dsimp only
  split
  · next hread =>
    rw [hread] at hall
    split at hall
    · next hend =>
      cases hall
      exact ⟨fun _ => rfl, absurd hend⟩
    · cases hall
  · next hread =>
    rw [hread] at hall
    split at hall
    · cases hall
    · next hend => exact ⟨fun hd => absurd hd hend, fun _ => ⟨_, rfl⟩⟩

/-- A source has a tree for its pieces, or it has neither pieces nor a tree. -/
theorem pieces_or_none (source : String) :
    (∃ pieces tree, piecesOf source.toList = .ok pieces ∧ Derives source tree ∧
      IsSource tree pieces) ∨
    (∃ p, piecesOf source.toList = .error p) ∧ ∀ tree, ¬Derives source tree := by
  obtain ⟨pieces, d, ps, hreads, hfurther, hpieces⟩ :=
    pieces_further source.toList.length (.start source.toList) (Nat.le_refl _)
  obtain ⟨hwhole, hleft⟩ := piecesOf_of_reads hreads
  have hmany : Matches .close (.many .token) (.start source.toList) (some (ps, d)) :=
    hfurther.many_of_further (by decide)
  have hstart : Matches .close .atStart (.start source.toList)
      (some ([], .start source.toList)) := .atStart rfl
  by_cases hend : d.rest = []
  · exact .inl ⟨pieces, _, hwhole hend,
      ⟨d, .rule (.seq hstart (.seq hmany (.rule (.atEnd hend))))⟩,
      rfl, ps, _, rfl, hpieces, rfl, rfl⟩
  · have hnone : Matches .spaced (.rule .template) (.start source.toList) none :=
      .noRule (.noSecond hstart (.noSecond hmany (.noRule (.notAtEnd hend))))
    refine .inr ⟨hleft hend, ?_⟩
    rintro tree ⟨d', hderives⟩
    cases hderives.unique hnone

theorem oversizedItem?_eq (es : List Expr) :
    oversizedItem? es = es.findSome? Expr.oversized? := by
  induction es with
  | nil => rfl
  | cons e es ih =>
    rw [oversizedItem?, ih, List.findSome?_cons]
    cases e.oversized? <;> rfl

theorem IsPiece.found {p : Phrase} {piece : Piece} (h : IsPiece p piece) :
    firstOversized? [p] = piece.content.exprs.findSome? Expr.oversized? := by
  cases h with
  | text => exact firstOversized?_of_ne .text (by decide) rfl
  | comment => exact firstOversized?_of_ne .comment (by decide) rfl
  | output he =>
    rw [firstOversized?_of_ne .outputTag (by decide) rfl, he.found, Content.exprs,
      List.findSome?_singleton]
  | statement ht =>
    rw [firstOversized?_of_ne .statementTag (by decide) rfl, ht.found, oversizedItem?_eq,
      Content.exprs]

theorem pieces_found {ps : List Phrase} {pieces : List Piece} (h : List.Forall₂ IsPiece ps pieces) :
    firstOversized? ps = (pieces.flatMap (·.content.exprs)).findSome? Expr.oversized? := by
  induction h with
  | nil => rfl
  | cons hp _ ih =>
    rw [firstOversized?_cons, hp.found, ih, List.flatMap_cons, List.findSome?_append]

/-- The tokens of phrases that stand for pieces are those of the pieces. -/
theorem tokensOfPhrases_eq (bounded : Bool) (options : ParserOptions) {ps : List Phrase}
    {pieces : List Piece} (h : List.Forall₂ IsPiece ps pieces) {last : Phrase}
    (hlast : last.rule = .endOfSource) (afterTag : Bool) :
    tokensOfPhrases bounded options afterTag (ps ++ [last]) =
      checked bounded (firstOversized? ps) (tokensOf options afterTag pieces) := by
  induction h generalizing afterTag with
  | nil =>
    rw [List.nil_append, tokensOfPhrases, hlast]
    cases bounded <;> rfl
  | @cons p piece ps pieces hp _ ih =>
    rw [firstOversized?_cons, hp.found]
    cases hp with
    | text =>
      rw [List.cons_append, tokensOfPhrases]
      dsimp only
      rw [ih]
      exact checked_map _ _ _ _
    | comment =>
      rw [List.cons_append, tokensOfPhrases]
      exact ih false
    | @output p lexeme part e he =>
      rw [List.cons_append, tokensOfPhrases, Content.exprs, List.findSome?_singleton]
      show (do
        let value ← part.toExpr bounded
        let tokens ← tokensOfPhrases bounded options false (ps ++ [last])
        pure (Token.output value :: tokens)) = _
      rw [he.built, ih]
      exact checked_bind (checked_map _ _ _ _)
    | @statement p lexeme part tag ht =>
      rw [List.cons_append, tokensOfPhrases, Content.exprs, ← oversizedItem?_eq]
      show (do
        let tag ← part.toTag bounded
        let tokens ← tokensOfPhrases bounded options true (ps ++ [last])
        pure (Token.tag tag p :: tokens)) = _
      rw [ht.built, ih]
      exact checked_bind (checked_map _ _ _ _)

/-- What is built of the tree of a source: the tokens of its pieces, or the fault of the first
integer that is out of range. -/
theorem IsSource.tokens {tree : Phrase} {pieces : List Piece} (h : IsSource tree pieces)
    (options : ParserOptions) :
    (∀ bounded, tree.tokens bounded options =
      checked bounded (firstOversized? [tree]) (tokensOf options false pieces)) ∧
      firstOversized? [tree] =
        (pieces.flatMap (·.content.exprs)).findSome? Expr.oversized? := by
  obtain ⟨hrule, ps, last, hparts, hpieces, hlast, hnone⟩ := h
  have hfound : firstOversized? [tree] = firstOversized? ps := by
    rw [firstOversized?_of_ne .template (by decide) hrule, hparts, firstOversized?_append,
      firstOversized?_of_ne .endOfSource (by decide) hlast, hnone, firstOversized?_nil,
      Option.or_none]
  refine ⟨fun bounded => ?_, by rw [hfound, pieces_found hpieces]⟩
  rw [hfound, Phrase.tokens, hparts]
  exact tokensOfPhrases_eq bounded options hpieces hlast false

end TemplateEngine
