import TemplateEngine.Proofs.Positions.Sources
import TemplateEngine.Proofs.Positions.Tokens

/-!
# Anchors of what is read

Every rule of the grammar spreads the anchors of what it reads: one for each node of an expression,
for each name that a tag binds and for the tag itself. They are spread as they are written, which
is not the order of the nodes, since what is reached from an operand is written behind it.
-/

namespace TemplateEngine

open Scanner

/-! ## Operators -/

/-- The anchors of an item. -/
def Item.anchors : Item Expr → List Anchor
  | .unary s => [⟨s.position, (· = s.op.symbol.toList)⟩]
  | .binary s => [⟨s.position, (· = s.op.symbol.toList)⟩]
  | .operand e => e.anchors

theorem UnaryOp.behind_of_at {op : UnaryOp} {c d : Cursor} (h : op.part.At c d) :
    c.Behind op.symbol.toList d := by
  cases op with
  | not => exact h.1
  | neg => exact h

theorem BinaryOp.behind_of_at {op : BinaryOp} {c d : Cursor} (h : op.part.At c d) :
    c.Behind op.symbol.toList d := by
  cases op with
  | or | and => exact h.1
  | _ => exact h

theorem owns_unarySign : unarySign.Spreads fun s => Item.anchors (.unary s) := by
  intro c s d h
  obtain ⟨hposition, hpart⟩ := at_of_unarySign h
  have hne : s.op.symbol.toList ≠ [] := by
    cases s.op <;> decide
  exact ⟨_, .cons (.refl c) hposition rfl hne (UnaryOp.behind_of_at hpart) (.refl d), .refl _⟩

theorem owns_binarySign : binarySign.Spreads fun s => Item.anchors (.binary s) := by
  intro c s d h
  obtain ⟨hposition, hpart⟩ := at_of_binarySign h
  have hne : s.op.symbol.toList ≠ [] := by
    cases s.op <;> decide
  exact ⟨_, .cons (.refl c) hposition rfl hne (BinaryOp.behind_of_at hpart) (.refl d), .refl _⟩

/-- A tree has the anchors of its items. -/
theorem OpTree.anchors_toExpr (t : OpTree Expr) :
    t.toExpr.anchors.Perm (t.items.flatMap Item.anchors) := by
  induction t with
  | operand e => simp [toExpr, items, Item.anchors]
  | unary s t ih => exact ih.cons _
  | binary l s r ihl ihr =>
    simp only [toExpr, items, Expr.anchors, Expr.nodes, List.map_cons, List.map_append,
      List.flatMap_append, List.flatMap_cons]
    exact (List.perm_middle.symm).trans (ihl.append (ihr.cons _))

/-! ## Expressions -/

theorem Expr.anchors_items (es : List Expr) :
    (nodesOfItems es).map Expr.anchor = es.flatMap Expr.anchors := by
  rw [nodesOfItems_eq, List.map_flatMap]
  rfl

theorem Expr.anchors_entries (xs : List (String × Expr)) :
    (nodesOfEntries xs).map Expr.anchor = xs.flatMap fun x => x.2.anchors := by
  rw [nodesOfEntries_eq, List.map_flatMap]
  rfl

section

variable {deeper : Scanner Expr}

/-- What is reached from an expression has the anchors of the expression and further ones. -/
def AddsAnchors (access : Expr → Expr) (as : List Anchor) : Prop :=
  ∀ e, (access e).anchors.Perm (e.anchors ++ as)

theorem owns_memberAccess : memberAccess.Owns AddsAnchors :=
  .rule <| .here fun p => .token (lexes_exactly (by decide)) fun _ => .skip .blanks fun _ =>
    .skip advances_identifier fun name => .pure fun e =>
    (List.perm_append_singleton _ e.anchors).symm

variable (h : deeper.Spreads Expr.anchors)

include h

theorem owns_indexAccess : (indexAccess deeper).Owns AddsAnchors := by
  refine .rule <| .here fun p => .token (lexes_exactly (by decide)) fun _ => .skip .blanks fun _ =>
    .bind h fun key as hkey => .skip .blanks fun _ => .skip (.exactly _) fun _ => .pure fun e => ?_
  have hnode : (Expr.index e key p).anchors =
      (Expr.index e key p).anchor :: (e.anchors ++ key.anchors) := by
    simp [Expr.anchors, Expr.nodes]
  rw [hnode, List.append_nil]
  exact ((hkey.symm.append_left _).cons _).trans List.perm_middle.symm

theorem owns_callAccess : (callAccess deeper).Owns AddsAnchors := by
  refine .rule <| .here fun p => .token (lexes_exactly (by decide)) fun _ => .skip .blanks fun _ =>
    .bind (Spreads.optional_list (Spreads.separated h)) fun args as hargs =>
    .skip .blanks fun _ => .skip (.exactly _) fun _ => .pure fun e => ?_
  have hnode : (Expr.call e (args.getD []) p).anchors = (Expr.call e (args.getD []) p).anchor ::
      (e.anchors ++ (args.getD []).flatMap Expr.anchors) := by
    rw [← Expr.anchors_items]
    simp [Expr.anchors, Expr.nodes]
  rw [hnode, List.append_nil]
  exact ((hargs.symm.append_left _).cons _).trans List.perm_middle.symm

theorem owns_accessor : (accessor deeper).Owns AddsAnchors := by
  refine .firstOf ?_
  simp only [List.forall_mem_cons, List.not_mem_nil, false_imp_iff, implies_true, and_true]
  exact ⟨owns_memberAccess, owns_indexAccess h, owns_callAccess h⟩

theorem owns_listLiteral : (listLiteral deeper).Spreads Expr.anchors := by
  refine Owns.rule <| .here fun p => .token (lexes_exactly (by decide)) fun _ =>
    .skip .blanks fun _ =>
    .bind (Spreads.optional_list (Spreads.listed h)) fun items as hitems => .skip .blanks fun _ =>
    .skip (.exactly _) fun _ => .pure ?_
  rw [Expr.anchors, Expr.nodes, List.map_cons, Expr.anchors_items, List.append_nil]
  exact hitems.cons _

theorem owns_mapEntry : (mapEntry deeper).Spreads fun x => x.2.anchors :=
  Owns.rule <| .skip (.orElse advances_identifier advances_stringLiteral) fun _ =>
    .skip .blanks fun _ => .skip (.exactly _) fun _ => .skip .blanks fun _ =>
    .bind h fun _ as he => .pure (by rwa [List.append_nil])

theorem owns_mapLiteral : (mapLiteral deeper).Spreads Expr.anchors := by
  refine Owns.rule <| .here fun p => .token (lexes_exactly (by decide)) fun _ =>
    .skip .blanks fun _ =>
    .bind (Spreads.optional_list (Spreads.listed (owns_mapEntry h))) fun entries as hentries =>
    .skip .blanks fun _ => .skip (.exactly _) fun _ => .pure ?_
  rw [Expr.anchors, Expr.nodes, List.map_cons, Expr.anchors_entries, List.append_nil]
  exact hentries.cons _

theorem owns_grouped : (grouped deeper).Spreads Expr.anchors :=
  Owns.skip (.exactly _) fun _ => .skip .blanks fun _ => .bind h fun _ as he =>
    .skip .blanks fun _ => .skip (.exactly _) fun _ => .pure (by rwa [List.append_nil])

theorem owns_primary : (primary deeper).Spreads Expr.anchors := by
  refine Owns.here fun p => .firstOf ?_
  simp only [List.forall_mem_cons, List.not_mem_nil, false_imp_iff, implies_true, and_true]
  exact ⟨.token lexes_literal fun _ => .pure (.refl _), .of_owns (owns_listLiteral h),
    .of_owns (owns_mapLiteral h), .token lexes_identifier fun _ => .pure (.refl _),
    .of_owns (owns_grouped h)⟩

theorem owns_operand : (operand deeper).Spreads Expr.anchors := by
  have haccessors : (many (accessor deeper)).Owns fun accessors as =>
      AddsAnchors (fun e => accessors.foldl (fun e access => access e) e) as := by
    refine .many (owns_accessor h) (fun e => by simp) fun access accessors as bs ha hrest e => ?_
    rw [← List.append_assoc]
    exact (hrest (access e)).trans ((ha e).append_right bs)
  exact Owns.rule <| .bind (owns_primary h) fun first as hfirst => .skip .blanks fun _ =>
    .bind haccessors fun accessors bs hreaches => .pure <| by
      rw [List.append_nil]
      exact (hfirst.append_right bs).trans (hreaches first).symm

theorem owns_link : (link deeper).Spreads fun l => l.items.flatMap Item.anchors := by
  refine Owns.bind owns_binarySign fun s as hs => .skip .blanks fun _ =>
    .bind (Spreads.many owns_unarySign) fun signs bs hsigns => .skip .blanks fun _ =>
    .bind (owns_operand h) fun e cs he => .pure ?_
  simp only [Link.items, List.flatMap_cons, List.flatMap_append, List.flatMap_map,
    List.flatMap_nil, List.append_nil]
  exact hs.append (hsigns.append he)

theorem owns_chain : (chain deeper).Spreads fun x => x.items.flatMap Item.anchors := by
  refine Owns.rule <| .bind (Spreads.many owns_unarySign) fun signs as hsigns =>
    .skip .blanks fun _ => .bind (owns_operand h) fun e bs he => .skip .blanks fun _ =>
    .bind (Spreads.many (owns_link h)) fun links cs hlinks => .pure ?_
  simp only [Chain.items, List.flatMap_cons, List.flatMap_append, List.flatMap_map,
    List.flatMap_assoc, List.append_nil]
  exact hsigns.append (he.append hlinks)

theorem owns_grouping : (grouping deeper).Spreads Expr.anchors := by
  refine Owns.bind (owns_chain h) fun x as hx => .pure ?_
  have htree := x.toTree.anchors_toExpr
  rw [x.items_toTree] at htree
  rw [List.append_nil]
  exact hx.trans htree.symm

end

/-- Expressions, by induction on the levels that are allowed. -/
theorem owns_expressionWithin (room : List Char) :
    (expressionWithin room).Spreads Expr.anchors := by
  induction room with
  | nil => exact owns_grouping Owns.fail
  | cons _ room ih => exact owns_grouping ih

theorem owns_expression : expression.Spreads Expr.anchors :=
  Owns.atCursor (p := fun c => expressionWithin c.rest) fun c => owns_expressionWithin c.rest

theorem owns_target : target.Spreads Expr.anchors :=
  Owns.atCursor (p := fun c => operand (expressionWithin c.rest)) fun c =>
    owns_operand (owns_expressionWithin c.rest)

/-! ## Tags -/

/-- The anchors of the names and the expressions of a tag. -/
def Tag.anchors (t : Tag) : List Anchor :=
  t.bindings.map VarRef.anchor ++ t.exprs.flatMap Expr.anchors

theorem owns_bound (scope : ScopeKind) : (bound scope).Spreads fun ref => [ref.anchor] :=
  Owns.here fun _ => .token lexes_identifier fun _ => .pure (.refl _)

theorem owns_bareTag {t : Tag} (h : t.anchors = []) : (bareTag t).Spreads Tag.anchors :=
  Owns.rule <| .skip (advances_keyword _) fun _ => .pure (by rw [h])

theorem owns_exprTag (word : String) {make : Expr → Tag}
    (h : ∀ e, (make e).anchors = e.anchors) : (exprTag word make).Spreads Tag.anchors :=
  Owns.rule <| .skip (advances_keyword _) fun _ => .skip .blanks fun _ =>
    .bind owns_expression fun e as he => .pure (by rwa [h, List.append_nil])

theorem owns_setTag : setTag.Spreads Tag.anchors :=
  Owns.rule <| .skip (advances_keyword _) fun _ => .skip .blanks fun _ =>
    .bind owns_target fun _ as ht => .skip .blanks fun _ => .skip (.exactly _) fun _ =>
    .skip .blanks fun _ => .bind owns_expression fun _ bs he =>
    .pure (by simpa [Tag.anchors, Tag.bindings, Tag.exprs] using ht.append he)

theorem owns_globalTag : globalTag.Spreads Tag.anchors :=
  Owns.rule <| .skip (advances_keyword _) fun _ => .skip .blanks fun _ =>
    .bind (owns_bound _) fun _ as href => .skip .blanks fun _ => .skip (.exactly _) fun _ =>
    .skip .blanks fun _ => .bind owns_expression fun _ bs he =>
    .pure (by simpa [Tag.anchors, Tag.bindings, Tag.exprs] using href.append he)

theorem owns_forTag : forTag.Spreads Tag.anchors :=
  Owns.rule <| .skip (advances_keyword _) fun _ => .skip .blanks fun _ =>
    .bind (owns_bound _) fun _ as href => .skip .blanks fun _ => .skip (advances_keyword _) fun _ =>
    .skip .blanks fun _ => .bind owns_expression fun _ bs he =>
    .pure (by simpa [Tag.anchors, Tag.bindings, Tag.exprs] using href.append he)

theorem owns_functionTag : functionTag.Spreads Tag.anchors :=
  Owns.rule <| .skip (advances_keyword _) fun _ => .skip .blanks fun _ =>
    .bind (owns_bound _) fun _ as href => .skip .blanks fun _ => .skip (.exactly _) fun _ =>
    .skip .blanks fun _ => .skip (.optional (.separated advances_identifier)) fun _ =>
    .skip .blanks fun _ => .skip (.exactly _) fun _ =>
    .pure (by simpa [Tag.anchors, Tag.bindings, Tag.exprs] using href)

theorem owns_returnTag : returnTag.Spreads Tag.anchors :=
  Owns.rule <| .skip (advances_keyword _) fun _ => .skip .blanks fun _ =>
    .bind (Spreads.optional owns_expression) fun _ as he =>
    .pure (by simpa [Tag.anchors, Tag.bindings, Tag.exprs] using he)

theorem owns_captureTag : captureTag.Spreads Tag.anchors :=
  Owns.rule <| .skip (advances_keyword _) fun _ => .skip .blanks fun _ =>
    .bind owns_target fun _ as ht =>
    .pure (by simpa [Tag.anchors, Tag.bindings, Tag.exprs] using ht)

theorem owns_includeTag : includeTag.Spreads Tag.anchors := by
  have hmodel : (optional (do keyword "with"; blanks; expression)).Spreads
      fun model : Option Expr => model.toList.flatMap Expr.anchors :=
    Spreads.optional <| Owns.skip (advances_keyword _) fun _ => .skip .blanks fun _ =>
      owns_expression
  exact Owns.rule <| .skip (advances_keyword _) fun _ => .skip .blanks fun _ =>
    .bind owns_expression fun _ as hpath => .skip .blanks fun _ => .bind hmodel fun _ bs hmodel =>
    .pure (by simpa [Tag.anchors, Tag.bindings, Tag.exprs] using hpath.append hmodel)

theorem owns_tag : tag.Spreads Tag.anchors := by
  have hexpr : ∀ {t : Tag} {e : Expr}, t.bindings = [] → t.exprs = [e] →
      t.anchors = e.anchors := by
    intro t e hb he
    simp [Tag.anchors, hb, he]
  refine Owns.firstOf ?_
  simp only [List.forall_mem_cons, List.not_mem_nil, false_imp_iff, implies_true, and_true]
  exact ⟨owns_setTag, owns_globalTag, owns_exprTag "if" fun _ => hexpr rfl rfl,
    owns_exprTag "elif" fun _ => hexpr rfl rfl, owns_bareTag rfl, owns_bareTag rfl, owns_forTag,
    owns_bareTag rfl, owns_exprTag "while" fun _ => hexpr rfl rfl, owns_bareTag rfl,
    owns_bareTag rfl, owns_bareTag rfl, owns_functionTag, owns_bareTag rfl, owns_returnTag,
    owns_captureTag, owns_bareTag rfl, owns_includeTag⟩

/-! ## Pieces -/

/-- The anchor of a statement tag. -/
def tagAnchor (p : Position) : Anchor := ⟨p, (· = "\x7b%".toList)⟩

/-- The anchors of what is in a piece. -/
def Content.anchors : Content → List Anchor
  | .text | .comment => []
  | .output e => e.anchors
  | .statement t p => tagAnchor p :: t.anchors

theorem owns_content :
    (firstOf [commentPiece, outputPiece, statementPiece, textPiece]).Spreads Content.anchors := by
  refine Owns.firstOf ?_
  simp only [List.forall_mem_cons, List.not_mem_nil, false_imp_iff, implies_true, and_true]
  refine ⟨?_, ?_, ?_, ?_⟩
  · refine .rule <| .skip (.exactly _) fun _ => .skip (fun c _ _ h => ?_) fun _ =>
      .skip (.exactly _) fun _ => .pure (.refl _)
    cases h
    exact ⟨_, Cursor.behind_drop (commentBody_begins c.rest)⟩
  · exact .rule <| .skip (.exactly _) fun _ => .skip .blanks fun _ =>
      .bind owns_expression fun _ as he => .skip .blanks fun _ => .skip (.exactly _) fun _ =>
      .pure (by rwa [List.append_nil])
  · refine .rule <| .here fun p => .token (lexes_exactly (by decide)) fun _ =>
      .skip .blanks fun _ => .bind owns_tag fun _ as ht => .skip .blanks fun _ =>
      .skip (.exactly _) fun _ => .pure ?_
    rw [List.append_nil]
    exact ht.cons _
  · refine .rule fun c _ d hreads => ?_
    unfold Reads at hreads
    dsimp only at hreads
    split at hreads
    · cases hreads
    · cases hreads
      exact ⟨[], .nil (Cursor.behind_drop (textBefore_begins c.rest)), .refl _⟩

theorem owns_piece : piece.Spreads fun p => p.content.anchors := by
  intro c p d h
  obtain ⟨content, e, hcontent, hlexeme⟩ := reads_bind.1 h
  cases hlexeme
  exact owns_content hcontent

theorem owns_piecesWithin (n : Nat) :
    (piecesWithin n).Spreads fun ps => ps.flatMap fun p => p.content.anchors := by
  induction n with
  | zero => exact Owns.pure (.refl _)
  | succ n ih =>
    refine Owns.bind (Spreads.optional owns_piece) fun x as hx => ?_
    cases x with
    | none => exact .pure (by simpa using hx)
    | some p => exact .bind ih fun ps bs hrest => .pure (by simpa using hx.append hrest)

/-- The pieces of a source spread their anchors over the source. -/
theorem spread_of_piecesOf {source : List Char} {ps : List Piece} (h : piecesOf source = .ok ps) :
    ∃ as d, Spread as (.start source) d ∧ as.Perm (ps.flatMap fun p => p.content.anchors) := by
  unfold piecesOf at h
  dsimp only at h
  split at h
  · next last _ heq =>
    cases h
    obtain ⟨ps', e, hps, hend⟩ := reads_bind.1 (congrArg Attempt.result heq)
    obtain ⟨_, _, -, hpure⟩ := reads_bind.1 hend
    cases hpure
    obtain ⟨as, hspread, has⟩ := owns_piecesWithin _ hps
    exact ⟨as, e, hspread, has⟩
  · cases h

end TemplateEngine
