import TemplateEngine.Proofs.Nesting.Flattening
import TemplateEngine.Proofs.Positions.Scanning
import TemplateEngine.Proofs.Scoping.Rule

/-!
# Statements stand in their source

A tag stands in its source with all that it names, and the statements that tags are read as stand
where the tags do: flattening a block gives back the tokens (`Stmt.stands_tokens`). Neither scopes
nor identities move a statement. So every statement of a template that was read stands in its
source (`everywhere_of_parse`).
-/

namespace TemplateEngine

open Scanner

variable {A : Position → Prop} {source : List Char}

/-! ## Tags -/

/-- The names that the tag binds. -/
def Tag.bindings : Tag → List VarRef
  | .setGlobal ref _ | .for ref _ | .function ref _ => [ref]
  | _ => []

/-- The names that the tag binds and its expressions stand at such places. -/
structure Tag.Stands (A : Position → Prop) (t : Tag) : Prop where
  binding : ∀ ref ∈ t.bindings, A ref.position
  expr : ∀ e ∈ t.exprs, e.Stands A

theorem advances_keyword (stem : String) : (keyword stem).Advances := by
  intro c _ d h
  unfold Reads keyword at h
  split at h
  · exact Advances.bind (.rule (advances_wordThat _)) (fun _ => .pure _) h
  · cases h

theorem places_bound (scope : ScopeKind) :
    (bound scope).Places source fun ref => ref.position.In source :=
  .bind .here fun _ hp => .skip advances_identifier fun _ => .pure hp

theorem places_bareTag {t : Tag} (h : t.Stands (Position.In source)) :
    (bareTag t).Places source (Tag.Stands (Position.In source)) :=
  .rule <| .skip (advances_keyword _) fun _ => .pure h

theorem places_exprTag (word : String) {make : Expr → Tag}
    (h : ∀ e, (make e).bindings = [] ∧ (make e).exprs = [e]) :
    (exprTag word make).Places source (Tag.Stands (Position.In source)) := by
  refine .rule <| .skip (advances_keyword _) fun _ => .skip .blanks fun _ =>
    .bind places_expression fun e he => .pure ⟨?_, ?_⟩
  · rw [(h e).1]
    exact nofun
  · simpa [(h e).2] using he

theorem places_setTag : setTag.Places source (Tag.Stands (Position.In source)) :=
  .rule <| .skip (advances_keyword _) fun _ => .skip .blanks fun _ =>
    .bind places_target fun _ ht => .skip .blanks fun _ => .skip (.exactly _) fun _ =>
    .skip .blanks fun _ => .bind places_expression fun _ he =>
    .pure ⟨nofun, by simpa [Tag.exprs] using ⟨ht, he⟩⟩

theorem places_globalTag : globalTag.Places source (Tag.Stands (Position.In source)) :=
  .rule <| .skip (advances_keyword _) fun _ => .skip .blanks fun _ =>
    .bind (places_bound _) fun _ href => .skip .blanks fun _ => .skip (.exactly _) fun _ =>
    .skip .blanks fun _ => .bind places_expression fun _ he =>
    .pure ⟨by simpa [Tag.bindings] using href, by simpa [Tag.exprs] using he⟩

theorem places_forTag : forTag.Places source (Tag.Stands (Position.In source)) :=
  .rule <| .skip (advances_keyword _) fun _ => .skip .blanks fun _ =>
    .bind (places_bound _) fun _ href => .skip .blanks fun _ => .skip (advances_keyword _) fun _ =>
    .skip .blanks fun _ => .bind places_expression fun _ he =>
    .pure ⟨by simpa [Tag.bindings] using href, by simpa [Tag.exprs] using he⟩

theorem places_functionTag : functionTag.Places source (Tag.Stands (Position.In source)) :=
  .rule <| .skip (advances_keyword _) fun _ => .skip .blanks fun _ =>
    .bind (places_bound _) fun _ href => .skip .blanks fun _ => .skip (.exactly _) fun _ =>
    .skip .blanks fun _ => .skip (.optional (.separated advances_identifier)) fun _ =>
    .skip .blanks fun _ => .skip (.exactly _) fun _ =>
    .pure ⟨by simpa [Tag.bindings] using href, nofun⟩

theorem places_returnTag : returnTag.Places source (Tag.Stands (Position.In source)) :=
  .rule <| .skip (advances_keyword _) fun _ => .skip .blanks fun _ =>
    .bind (.optional places_expression) fun _ he =>
    .pure ⟨nofun, fun e h => he e (Option.mem_toList.1 h)⟩

theorem places_captureTag : captureTag.Places source (Tag.Stands (Position.In source)) :=
  .rule <| .skip (advances_keyword _) fun _ => .skip .blanks fun _ =>
    .bind places_target fun _ ht => .pure ⟨nofun, by simpa [Tag.exprs] using ht⟩

theorem places_includeTag : includeTag.Places source (Tag.Stands (Position.In source)) := by
  refine .rule <| .skip (advances_keyword _) fun _ => .skip .blanks fun _ =>
    .bind places_expression fun _ hpath => .skip .blanks fun _ =>
    .bind (.optional (.skip (advances_keyword _) fun _ => .skip .blanks fun _ =>
      places_expression)) fun _ hmodel => .pure ⟨nofun, ?_⟩
  exact List.forall_mem_cons.2 ⟨hpath, fun e he => hmodel e (Option.mem_toList.1 he)⟩

theorem places_tag : tag.Places source (Tag.Stands (Position.In source)) := by
  have hbare {t : Tag} (hb : t.bindings = []) (he : t.exprs = []) :
      (bareTag t).Places source (Tag.Stands (Position.In source)) :=
    places_bareTag ⟨by simp [hb], by simp [he]⟩
  refine .firstOf ?_
  simp only [List.forall_mem_cons, List.not_mem_nil, false_imp_iff, implies_true, and_true]
  exact ⟨places_setTag, places_globalTag, places_exprTag "if" fun _ => ⟨rfl, rfl⟩,
    places_exprTag "elif" fun _ => ⟨rfl, rfl⟩, hbare rfl rfl, hbare rfl rfl, places_forTag,
    hbare rfl rfl, places_exprTag "while" fun _ => ⟨rfl, rfl⟩, hbare rfl rfl, hbare rfl rfl,
    hbare rfl rfl, places_functionTag, hbare rfl rfl, places_returnTag, places_captureTag,
    hbare rfl rfl, places_includeTag⟩

/-! ## Pieces -/

/-- What is in the piece stands at such places. -/
def Content.Stands (A : Position → Prop) : Content → Prop
  | .text | .comment => True
  | .output e => e.Stands A
  | .statement t p => A p ∧ t.Stands A

theorem places_content :
    (firstOf [commentPiece, outputPiece, statementPiece, textPiece]).Places source
      (Content.Stands (Position.In source)) := by
  refine .firstOf ?_
  simp only [List.forall_mem_cons, List.not_mem_nil, false_imp_iff, implies_true, and_true]
  refine ⟨?_, ?_, ?_, ?_⟩
  · refine .rule <| .skip (.exactly _) fun _ => .skip (fun c _ _ h => ?_) fun _ =>
      .skip (.exactly _) fun _ => .pure trivial
    cases h
    exact ⟨_, Cursor.behind_drop (commentBody_begins c.rest)⟩
  · exact .rule <| .skip (.exactly _) fun _ => .skip .blanks fun _ =>
      .bind places_expression fun _ he => .skip .blanks fun _ => .skip (.exactly _) fun _ =>
      .pure he
  · exact .rule <| .bind .here fun _ hp => .skip (.exactly _) fun _ => .skip .blanks fun _ =>
      .bind places_tag fun _ ht => .skip .blanks fun _ => .skip (.exactly _) fun _ =>
      .pure ⟨hp, ht⟩
  · refine .rule fun c _ d hc hreads => ?_
    unfold Reads at hreads
    dsimp only at hreads
    split at hreads
    · cases hreads
    · cases hreads
      exact ⟨trivial, hc.behind (Cursor.behind_drop (textBefore_begins c.rest))⟩

theorem places_piece : piece.Places source fun p => p.content.Stands (Position.In source) := by
  intro c p d hc h
  obtain ⟨content, e, hcontent, hlexeme⟩ := reads_bind.1 h
  cases hlexeme
  exact places_content hc hcontent

theorem places_piecesWithin (n : Nat) :
    (piecesWithin n).Places source fun ps => ∀ p ∈ ps, p.content.Stands (Position.In source) := by
  induction n with
  | zero => exact .pure nofun
  | succ n ih =>
    refine .bind (.optional places_piece) fun x hx => ?_
    cases x with
    | none => exact .pure nofun
    | some p => exact .bind ih fun _ hrest => .pure (List.forall_mem_cons.2 ⟨hx p rfl, hrest⟩)

theorem stands_of_piecesOf {ps : List Piece} (h : piecesOf source = .ok ps) :
    ∀ p ∈ ps, p.content.Stands (Position.In source) := by
  unfold piecesOf at h
  dsimp only at h
  split at h
  · next last _ heq =>
    cases h
    obtain ⟨ps', e, hps, hend⟩ := reads_bind.1 (congrArg Attempt.result heq)
    obtain ⟨_, _, -, hpure⟩ := reads_bind.1 hend
    cases hpure
    exact (places_piecesWithin _ (.start source) hps).1
  · cases h

/-! ## Blocks as tokens -/

/-- What is in the token stands at such places, and the tag itself if a statement keeps its
place. -/
def Token.Stands (A : Position → Prop) : Token → Prop
  | .text _ => True
  | .output e => e.Stands A
  | .tag t p => (t.IsPlaced = true → A p) ∧ t.Stands A

theorem Token.stands_output {e : Expr} : (output e).Stands A ↔ e.Stands A := .rfl

theorem Token.stands_tag {t : Tag} {p : Position} : (tag t p).Stands A ↔
    (t.IsPlaced = true → A p) ∧ (∀ ref ∈ t.bindings, A ref.position) ∧ ∀ e ∈ t.exprs, e.Stands A :=
  and_congr_right fun _ => ⟨fun h => ⟨h.binding, h.expr⟩, fun h => ⟨h.1, h.2⟩⟩

theorem Token.Stands.forget {t : Token} (h : t.Stands A) : t.forget.Stands A := by
  cases t with
  | text | output => exact h
  | tag t p =>
    refine ⟨fun hplaced => ?_, h.2⟩
    rw [if_pos hplaced]
    exact h.1 hplaced

theorem stands_tokensOf (options : ParserOptions) {ps : List Piece} (afterTag : Bool)
    (h : ∀ p ∈ ps, p.content.Stands A) : ∀ t ∈ tokensOf options afterTag ps, t.Stands A := by
  induction ps generalizing afterTag with
  | nil => exact nofun
  | cons p rest ih =>
    obtain ⟨hp, hrest⟩ := List.forall_mem_cons.1 h
    unfold tokensOf
    split
    · generalize (if afterTag && options.trimBlocks then dropLineBreak p.lexeme
        else p.lexeme) = text
      dsimp only
      split
      · exact ih _ hrest
      · exact List.forall_mem_cons.2 ⟨trivial, ih _ hrest⟩
    · exact ih _ hrest
    · next heq =>
      rw [heq] at hp
      exact List.forall_mem_cons.2 ⟨hp, ih _ hrest⟩
    · next heq =>
      rw [heq] at hp
      exact List.forall_mem_cons.2 ⟨⟨fun _ => hp.1, hp.2⟩, ih _ hrest⟩

theorem forall_mem_blockTokens {P : Token → Prop} {b : Block} :
    (∀ t ∈ blockTokens b, P t) ↔ ∀ s ∈ b, ∀ t ∈ s.tokens, P t := by
  induction b with
  | nil => simp [blockTokens]
  | cons s rest ih => simp only [blockTokens, List.forall_mem_append, List.forall_mem_cons, ih]

theorem stands_branchTokens {begins : Expr → Tag}
    (h : ∀ e, (begins e).IsPlaced = false ∧ (begins e).bindings = [] ∧ (begins e).exprs = [e])
    (bs : List (Expr × Block)) :
    (∀ t ∈ branchTokens begins bs, t.Stands A) ↔
      (∀ x ∈ bs, x.1.Stands A) ∧ ∀ x ∈ bs, ∀ t ∈ blockTokens x.2, t.Stands A := by
  induction bs generalizing begins with
  | nil => simp [branchTokens]
  | cons x rest ih =>
    have hbegins : (Token.tag (begins x.1) .unknown).Stands A ↔ x.1.Stands A := by
      simp [Token.stands_tag, h]
    simp only [branchTokens, List.forall_mem_cons, List.forall_mem_append, hbegins,
      @ih .elif fun _ => ⟨rfl, rfl, rfl⟩]
    exact and_and_and_comm

/-- The tokens of a statement stand where it does and its blocks do. -/
theorem Stmt.stands_tokens (s : Stmt) : (∀ t ∈ s.tokens, t.Stands A) ↔
    s.Stands A ∧ ∀ x ∈ s.blocks, ∀ t ∈ blockTokens x.2, t.Stands A := by
  rw [stands_iff]
  cases s with
  | text content => simp [tokens, blocks, position?, bindings, exprs, Token.Stands]
  | choose bs otherwise =>
    have hif := @stands_branchTokens A .if (fun _ => ⟨rfl, rfl, rfl⟩) bs
    cases otherwise <;>
    · simp only [tokens, blocks, exprs, List.forall_mem_append, List.forall_mem_map, hif]
      simp [position?, bindings, and_assoc, Token.stands_tag, Tag.IsPlaced, Tag.bindings, Tag.exprs]
  | each ref items body otherwise p =>
    cases otherwise <;>
      simp [tokens, blocks, position?, bindings, exprs, or_imp, forall_and, and_assoc,
        Token.stands_tag, Tag.IsPlaced, Tag.bindings, Tag.exprs]
  | _ =>
    simp [tokens, blocks, position?, bindings, exprs, or_imp, forall_and, and_assoc,
      Token.stands_tag, Token.stands_output, Tag.IsPlaced, Tag.bindings, Tag.exprs]

/-! ## Templates -/

/-- The statements of a block stand where its tokens do, by induction on the block. -/
theorem Block.everywhere_stands {b : Block} :
    b.Everywhere (Stmt.Stands A) ↔ ∀ t ∈ blockTokens b, t.Stands A := by
  induction b using Block.induction with
  | h b ih =>
    rw [everywhere_iff, forall_mem_blockTokens]
    refine forall₂_congr fun s hs => ?_
    rw [s.stands_tokens]
    exact and_congr_right fun _ => forall₂_congr fun x hx => ih s hs x hx

/-! ### Scopes -/

theorem Expr.position_resolve (scope : Scope) (e : Expr) :
    (e.resolve scope).position = e.position := by
  cases e <;> rfl

theorem Expr.stands_resolve (scope : Scope) (e : Expr) :
    (e.resolve scope).Stands A ↔ e.Stands A := by
  simp only [Stands, e.nodes_resolve scope, List.forall_mem_map, position_resolve]

theorem Stmt.stands_resolve (scope : Scope) (s : Stmt) :
    (s.resolve scope).Stands A ↔ s.Stands A := by
  have hposition : (s.resolve scope).position? = s.position? := by cases s <;> rfl
  have hbindings : (s.resolve scope).bindings = s.bindings := by cases s <;> rfl
  simp only [stands_iff, hposition, hbindings, s.exprs_resolve scope, List.forall_mem_map,
    Expr.stands_resolve]

theorem Block.everywhere_resolve (scope : Scope) (b : Block) :
    Everywhere (Stmt.Stands A) (resolveBlock scope b) ↔ b.Everywhere (Stmt.Stands A) := by
  induction b using Block.induction generalizing scope with
  | h b ih =>
    rw [everywhere_iff, everywhere_iff, resolveBlock_eq_map, List.forall_mem_map]
    refine forall₂_congr fun s hs => ?_
    rw [s.stands_resolve scope, s.blocks_resolve scope, List.forall_mem_map]
    exact and_congr_right fun _ => forall₂_congr fun x hx => ih s hs x hx _

/-! ### Identities -/

mutual

/-- A statement is written the same whatever its identity. -/
theorem Stmt.tokens_identify : ∀ (s : Stmt) (n : Nat), (s.identify n).1.tokens = s.tokens
  | .choose bs none, n => by
    simp only [Stmt.identify, Stmt.tokens, branchTokens_identify bs]
  | .choose bs (some b), n => by
    simp only [Stmt.identify, Stmt.tokens, branchTokens_identify bs, blockTokens_identify b]
  | .each _ _ b none _, n => by
    simp only [Stmt.identify, Stmt.tokens, blockTokens_identify b]
  | .each _ _ b (some o) _, n => by
    simp only [Stmt.identify, Stmt.tokens, blockTokens_identify b, blockTokens_identify o]
  | .repeatWhile _ b _, n | .define _ _ _ b _, n | .capture _ b, n => by
    simp only [Stmt.identify, Stmt.tokens, blockTokens_identify b]
  | .text _, _ | .output _, _ | .assign _ _, _ | .assignGlobal _ _, _ | .leave _ _, _
  | .stop _, _ | .next _, _ | .include _ _ _, _ => rfl

theorem blockTokens_identify :
    ∀ (b : List Stmt) (n : Nat), blockTokens (identifyBlock n b).1 = blockTokens b
  | [], _ => rfl
  | s :: rest, n => by
    simp only [identifyBlock, blockTokens, s.tokens_identify, blockTokens_identify rest]

theorem branchTokens_identify : ∀ (bs : List (Expr × List Stmt)) (begins : Expr → Tag) (n : Nat),
    branchTokens begins (identifyBranches n bs).1 = branchTokens begins bs
  | [], _, _ => rfl
  | (_, b) :: rest, _, n => by
    simp only [identifyBranches, branchTokens, blockTokens_identify b, branchTokens_identify rest]

end

/-! ### Parsed templates -/

namespace Template

variable {t : Template}

theorem everywhere_identify (h : t.body.Everywhere (Stmt.Stands A)) (n : Nat) :
    (t.identify n).1.body.Everywhere (Stmt.Stands A) := by
  rw [Block.everywhere_stands] at h ⊢
  exact (blockTokens_identify t.body (n + 1)).symm ▸ h

/-- Every statement of a template that was read stands in the source. -/
theorem everywhere_of_parse {name source : String} {options : ParserOptions}
    (h : Template.parse name source options = .ok t) :
    t.body.Everywhere (Stmt.Stands (Position.In source.toList)) := by
  obtain ⟨b, hb, rfl⟩ := parse_eq_ok_iff.1 h
  obtain ⟨ps, block, hps, -, hblock, -, rfl⟩ := parseBlock_eq_ok_iff.1 hb
  refine (Block.everywhere_resolve .top block).2 (Block.everywhere_stands.2 ?_)
  rw [← (forget_of_ofTokens hblock).2, List.forall_mem_map]
  have hstands := stands_tokensOf options false (stands_of_piecesOf hps)
  exact fun token htoken => (hstands token htoken).forget

end Template

end TemplateEngine
