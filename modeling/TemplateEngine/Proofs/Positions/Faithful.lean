import Mathlib.Data.List.Perm.Basic
import TemplateEngine.Proofs.Positions.Anchors

/-!
# Places are faithful

The statements of a template, however deep they are, stand where their own tokens do: a statement
that keeps the place of its tag at the braces of the tag, a name at the name, and every node of an
expression at its own token. All of these are different tokens of the source, so no two of them
share a place (`places_are_faithful`).
-/

namespace TemplateEngine

/-! ## Statements in blocks -/

mutual

/-- The statement and all that are in its blocks, in the order in which they begin. -/
def Stmt.statements : Stmt → List Stmt
  | .choose branches otherwise =>
    .choose branches otherwise :: (statementsOfBranches branches ++
      match otherwise with
      | none => []
      | some block => statementsOfBlock block)
  | .each ref items body otherwise p =>
    .each ref items body otherwise p :: (statementsOfBlock body ++
      match otherwise with
      | none => []
      | some block => statementsOfBlock block)
  | .repeatWhile condition body p => .repeatWhile condition body p :: statementsOfBlock body
  | .define identity name params body p =>
    .define identity name params body p :: statementsOfBlock body
  | .capture target body => .capture target body :: statementsOfBlock body
  | s => [s]

/-- The statements of a block and all that are in their blocks. -/
def statementsOfBlock : List Stmt → List Stmt
  | [] => []
  | s :: rest => s.statements ++ statementsOfBlock rest

/-- The statements in the bodies of branches. -/
def statementsOfBranches : List (Expr × List Stmt) → List Stmt
  | [] => []
  | (_, body) :: rest => statementsOfBlock body ++ statementsOfBranches rest

end

theorem statementsOfBlock_eq (b : Block) : statementsOfBlock b = b.flatMap Stmt.statements := by
  induction b with
  | nil => rfl
  | cons s rest ih => rw [statementsOfBlock, ih, List.flatMap_cons]

theorem statementsOfBranches_eq (bs : List (Expr × Block)) :
    statementsOfBranches bs = bs.flatMap fun x => statementsOfBlock x.2 := by
  induction bs with
  | nil => rfl
  | cons x rest ih => rw [statementsOfBranches, ih, List.flatMap_cons]

theorem Stmt.statements_eq (s : Stmt) :
    s.statements = s :: s.blocks.flatMap fun x => statementsOfBlock x.2 := by
  cases s with
  | choose bs otherwise =>
    cases otherwise <;>
      simp [statements, blocks, statementsOfBranches_eq, List.flatMap_map]
  | each ref items body otherwise p =>
    cases otherwise <;> simp [statements, blocks]
  | _ => simp [statements, blocks]

/-! ## Anchors of statements -/

/-- The anchors of a statement itself: of its tag, if it keeps the place of that, of the names that
it binds, and of the nodes of its expressions. -/
def Stmt.anchors (s : Stmt) : List Anchor :=
  s.position?.toList.map tagAnchor ++ s.bindings.map VarRef.anchor ++ s.exprs.flatMap Expr.anchors

theorem Stmt.map_position_anchors (s : Stmt) : s.anchors.map Anchor.position = s.positions := by
  simp only [anchors, positions, List.map_append, List.map_map, List.map_flatMap, Expr.anchors]
  simp [Function.comp_def, tagAnchor, VarRef.anchor, Expr.anchor]

/-- The anchors of a token, of its tag only if a statement keeps the place of that. -/
def Token.anchors : Token → List Anchor
  | .text _ => []
  | .output e => e.anchors
  | .tag t p => (if t.IsPlaced then [tagAnchor p] else []) ++ t.anchors

theorem Token.anchors_forget (t : Token) : t.forget.anchors = t.anchors := by
  cases t with
  | text | output => rfl
  | tag t p =>
    simp only [forget, anchors]
    by_cases hplaced : t.IsPlaced <;> simp [hplaced]

/-- The tokens of a source have the anchors of its pieces, but for tags whose places are not
kept. -/
theorem anchors_tokensOf (options : ParserOptions) (afterTag : Bool) (ps : List Piece) :
    ((tokensOf options afterTag ps).flatMap Token.anchors).Sublist
      (ps.flatMap fun p => p.content.anchors) := by
  induction ps generalizing afterTag with
  | nil => exact .slnil
  | cons p rest ih =>
    rw [List.flatMap_cons]
    unfold tokensOf
    split
    · generalize (if afterTag && options.trimBlocks then dropLineBreak p.lexeme
        else p.lexeme) = text
      dsimp only
      split
      · exact (ih _).trans (List.sublist_append_right _ _)
      · exact (ih _).trans (List.sublist_append_right _ _)
    · exact (ih _).trans (List.sublist_append_right _ _)
    · next heq =>
      rw [heq]
      exact (List.Sublist.refl _).append (ih _)
    · next t position heq =>
      rw [heq, List.flatMap_cons]
      refine List.Sublist.append ?_ (ih _)
      simp only [Token.anchors, Content.anchors]
      by_cases hplaced : t.IsPlaced
      · rw [if_pos hplaced]
        exact .refl _
      · rw [if_neg hplaced]
        exact List.sublist_cons_self _ _

theorem blockTokens_eq (b : Block) : blockTokens b = b.flatMap Stmt.tokens := by
  induction b with
  | nil => rfl
  | cons s rest ih => rw [blockTokens, ih, List.flatMap_cons]

theorem anchors_branchTokens {begins : Expr → Tag}
    (h : ∀ e, (begins e).IsPlaced = false ∧ (begins e).anchors = e.anchors)
    (bs : List (Expr × Block)) :
    ((branchTokens begins bs).flatMap Token.anchors).Perm
      (bs.flatMap (fun x => x.1.anchors) ++
        bs.flatMap fun x => (blockTokens x.2).flatMap Token.anchors) := by
  induction bs generalizing begins with
  | nil => exact .refl _
  | cons x rest ih =>
    obtain ⟨c, body⟩ := x
    have htag : (Token.tag (begins c) .unknown).anchors = c.anchors := by
      simp [Token.anchors, h]
    have hrest := @ih .elif fun e => ⟨rfl, by simp [Tag.anchors, Tag.bindings, Tag.exprs]⟩
    simp only [branchTokens, List.flatMap_cons, List.flatMap_append, htag, List.append_assoc]
    refine .append_left _ ?_
    refine (hrest.append_left _).trans ?_
    rw [← List.append_assoc, ← List.append_assoc]
    exact List.perm_append_comm.append_right _

/-- The tokens of a statement have its anchors and those of its blocks. -/
theorem Stmt.anchors_tokens (s : Stmt) :
    (s.tokens.flatMap Token.anchors).Perm
      (s.anchors ++ s.blocks.flatMap fun x => (blockTokens x.2).flatMap Token.anchors) := by
  cases s with
  | choose bs otherwise =>
    have hbranches := @anchors_branchTokens .if
      (fun e => ⟨rfl, by simp [Tag.anchors, Tag.bindings, Tag.exprs]⟩) bs
    cases otherwise with
    | none =>
      simpa [tokens, blocks, anchors, position?, bindings, exprs, Token.anchors, Tag.anchors,
        Tag.IsPlaced, Tag.bindings, Tag.exprs, List.flatMap_map] using hbranches
    | some block =>
      have hall := hbranches.append_right ((blockTokens block).flatMap Token.anchors)
      simpa [tokens, blocks, anchors, position?, bindings, exprs, Token.anchors, Tag.anchors,
        Tag.IsPlaced, Tag.bindings, Tag.exprs, List.flatMap_map] using hall
  | each ref items body otherwise p =>
    cases otherwise <;>
      simp [tokens, blocks, anchors, position?, bindings, exprs, Token.anchors, Tag.anchors,
        Tag.IsPlaced, Tag.bindings, Tag.exprs]
  | _ =>
    simp [tokens, blocks, anchors, position?, bindings, exprs, Token.anchors, Tag.anchors,
      Tag.IsPlaced, Tag.bindings, Tag.exprs]

/-- The tokens of a block have the anchors of all statements in it, by induction on the block. -/
theorem anchors_blockTokens (b : Block) :
    ((blockTokens b).flatMap Token.anchors).Perm
      ((statementsOfBlock b).flatMap Stmt.anchors) := by
  induction b using Block.induction with
  | h b ih =>
    rw [blockTokens_eq, statementsOfBlock_eq, List.flatMap_assoc, List.flatMap_assoc]
    refine List.Perm.flatMap_left _ fun s hs => s.anchors_tokens.trans ?_
    rw [s.statements_eq, List.flatMap_cons, List.flatMap_assoc]
    exact (List.Perm.flatMap_left _ fun x hx => ih s hs x hx).append_left _

/-! ### Scopes -/

theorem Expr.anchors_resolve (scope : Scope) (e : Expr) :
    (e.resolve scope).anchors = e.anchors := by
  have hnode : ∀ x : Expr, (x.resolve scope).anchor = x.anchor := by
    intro x
    cases x <;> rfl
  simp only [anchors, e.nodes_resolve scope, List.map_map, Function.comp_def, hnode]

theorem Stmt.anchors_resolve (scope : Scope) (s : Stmt) :
    (s.resolve scope).anchors = s.anchors := by
  have hposition : (s.resolve scope).position? = s.position? := by cases s <;> rfl
  have hbindings : (s.resolve scope).bindings = s.bindings := by cases s <;> rfl
  simp only [anchors, hposition, hbindings, s.exprs_resolve scope, List.flatMap_map,
    Expr.anchors_resolve]

/-- Resolving names moves nothing, by induction on the block. -/
theorem anchors_resolveBlock (scope : Scope) (b : Block) :
    (statementsOfBlock (resolveBlock scope b)).flatMap Stmt.anchors =
      (statementsOfBlock b).flatMap Stmt.anchors := by
  induction b using Block.induction generalizing scope with
  | h b ih =>
    rw [resolveBlock_eq_map, statementsOfBlock_eq, statementsOfBlock_eq, List.flatMap_map,
      List.flatMap_assoc, List.flatMap_assoc]
    refine List.flatMap_congr fun s hs => ?_
    rw [Stmt.statements_eq, s.statements_eq, List.flatMap_cons, List.flatMap_cons,
      s.anchors_resolve, s.blocks_resolve, List.flatMap_map, List.flatMap_assoc, List.flatMap_assoc]
    exact congrArg _ (List.flatMap_congr fun x hx => ih s hs x hx _)

/-! ## Templates -/

/-- The anchors of a template are among those that are spread over its source. -/
theorem Template.spread_of_parse {t : Template} {name source : String} {options : ParserOptions}
    (h : Template.parse name source options = .ok t) :
    ∃ as d, Spread as (.start source.toList) d ∧
      ((statementsOfBlock t.body).flatMap Stmt.anchors).Subperm as := by
  obtain ⟨b, hb, rfl⟩ := parse_eq_ok_iff.1 h
  obtain ⟨ps, block, hps, -, hblock, -, rfl⟩ := parseBlock_eq_ok_iff.1 hb
  obtain ⟨as, d, hspread, has⟩ := spread_of_piecesOf hps
  refine ⟨as, d, hspread, ?_⟩
  have htokens : (blockTokens block).flatMap Token.anchors =
      (tokensOf options false ps).flatMap Token.anchors := by
    rw [← (forget_of_ofTokens hblock).2, List.flatMap_map]
    simp only [Token.anchors_forget]
  have hpieces : ((blockTokens block).flatMap Token.anchors).Subperm as := by
    rw [htokens]
    exact (anchors_tokensOf options false ps).subperm.trans has.symm.subperm
  change ((statementsOfBlock (resolveBlock .top block)).flatMap Stmt.anchors).Subperm as
  rw [anchors_resolveBlock]
  exact (anchors_blockTokens block).symm.subperm.trans hpieces

/-- In a template that was read, every statement that keeps the place of its tag stands where the
source has the braces of a tag, every name that a statement binds where the source has the name,
and every node of an expression where the source has its own token: the name of a variable, the
dot, the bracket or the parenthesis of a member, an index, a call, a list or a map, the symbol of an
operator, the text of a constant. Lines and columns are counted from one by what is before the
token. No two places that are kept in the template are the same. -/
theorem places_are_faithful {t : Template} {name source : String} {options : ParserOptions}
    (h : Template.parse name source options = .ok t) :
    (∀ s ∈ statementsOfBlock t.body,
      (∀ p ∈ s.position?, (tagAnchor p).Stands source.toList) ∧
      (∀ ref ∈ s.bindings, ref.anchor.Stands source.toList) ∧
      ∀ e ∈ s.exprs, ∀ x ∈ e.nodes, x.anchor.Stands source.toList) ∧
    ((statementsOfBlock t.body).flatMap Stmt.positions).Nodup := by
  obtain ⟨as, d, hspread, hsub⟩ := Template.spread_of_parse h
  constructor
  · have hall : ∀ s ∈ statementsOfBlock t.body, ∀ a ∈ s.anchors, a.Stands source.toList :=
      fun s hs a ha => hspread.stands (.refl _) a (hsub.subset (List.mem_flatMap.2 ⟨s, hs, ha⟩))
    intro s hs
    have hstands := hall s hs
    simp only [Stmt.anchors, List.forall_mem_append, List.forall_mem_map, List.forall_mem_flatMap,
      Option.mem_toList, Expr.anchors] at hstands
    exact ⟨hstands.1.1, hstands.1.2, hstands.2⟩
  · have hpositions : ((statementsOfBlock t.body).flatMap Stmt.anchors).map Anchor.position =
        (statementsOfBlock t.body).flatMap Stmt.positions := by
      simp only [List.map_flatMap, Stmt.map_position_anchors]
    obtain ⟨sub, hperm, hsublist⟩ := hsub
    rw [← hpositions, ← (hperm.map _).nodup_iff]
    exact (hsublist.map _).nodup hspread.nodup

/-- A loop over several lines, of which one ends with a carriage return, over calls and accesses. -/
def severalLines : String :=
  "é\r\n\x7b% for x in [1, -a.b] %\x7d\n \x7b\x7b (x[0] ~ f('é\n', \x7b k: 2.5 \x7d)) \x7d\x7d" ++
    "\x7b% endfor %\x7d"

theorem severalLines_are_faithful :
    ∃ t, Template.parse "t" severalLines .plain = .ok t ∧
      (∀ s ∈ statementsOfBlock t.body,
        (∀ p ∈ s.position?, (tagAnchor p).Stands severalLines.toList) ∧
        (∀ ref ∈ s.bindings, ref.anchor.Stands severalLines.toList) ∧
        ∀ e ∈ s.exprs, ∀ x ∈ e.nodes, x.anchor.Stands severalLines.toList) ∧
      ((statementsOfBlock t.body).flatMap Stmt.positions).Nodup := by
  have hread : (Template.parse "t" severalLines .plain).toBool = true := by decide +kernel
  cases h : Template.parse "t" severalLines .plain with
  | error e =>
    rw [h] at hread
    cases hread
  | ok t => exact ⟨t, rfl, places_are_faithful h⟩

end TemplateEngine
