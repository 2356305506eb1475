import Mathlib.Data.List.Forall2
import TemplateEngine.Source.Parse

/-!
# What nesting depends on

Which tags may follow depends on the open constructs only as far as their stage goes: what kind of
construct it is and whether it has come to its last block (`Opening.stage`). So two runs that read
the same tags are refused at the same tag with the same error, whatever statements stand between
the tags (`ofTokens_tokensOf_eq_error_iff`).
-/

namespace TemplateEngine

/-- How far an open construct has come. -/
inductive Stage
  | branch
  | otherwise
  | each
  | eachOtherwise
  | while
  | function
  | capture

/-- How far an open construct has come, without what it holds. -/
def Opening.stage : Opening → Stage
  | .branch .. => .branch
  | .otherwise _ => .otherwise
  | .each .. => .each
  | .eachOtherwise .. => .eachOtherwise
  | .while _ => .while
  | .function .. => .function
  | .capture _ => .capture

/-- Where a construct stands after a tag, if it is still open. -/
def Turn.stage? : Turn → Option Stage
  | .divides opening => some opening.stage
  | .closes _ => none

/-- What a tag does to a construct is told by the stage of the construct. -/
theorem Opening.stage_turn? {o o' : Opening} (h : o.stage = o'.stage) (b b' : Block)
    (p p' : Position) (t : Tag) :
    (o.turn? b p t).map Turn.stage? = (o'.turn? b' p' t).map Turn.stage? := by
  cases o <;> cases o' <;> cases h <;> cases t <;> rfl

theorem Opening.word_eq_of_stage {o o' : Opening} (h : o.stage = o'.stage) : o.word = o'.word := by
  cases o <;> cases o' <;> cases h <;> rfl

/-- Two levels were opened at one place and have come equally far. -/
structure Level.Alike (l m : Level) : Prop where
  stage : l.opening.stage = m.opening.stage
  position : l.position = m.position

/-- The same constructs are open in both. -/
def Builder.Alike (b c : Builder) : Prop := List.Forall₂ Level.Alike b.levels c.levels

/-- Both fail with the same error, or both go on and are alike. -/
def EndAlike (x y : Except ParseError Builder) : Prop :=
  (∃ e, x = .error e ∧ y = .error e) ∨ ∃ b c, x = .ok b ∧ y = .ok c ∧ b.Alike c

namespace Builder

variable {b c : Builder}

theorem Alike.add_left (h : b.Alike c) (s : Stmt) : (b.add s).Alike c := h

theorem Alike.add_right (h : b.Alike c) (s : Stmt) : b.Alike (c.add s) := h

theorem Alike.turn (h : b.Alike c) (t : Tag) (p : Position) :
    EndAlike (b.turn t p) (c.turn t p) := by
  obtain ⟨levels, current⟩ := b
  obtain ⟨levels', current'⟩ := c
  cases h with
  | nil => exact .inl ⟨_, rfl, rfl⟩
  | @cons l m outer outer' hlevel houter =>
    have hturn := Opening.stage_turn? hlevel.stage current.reverse current'.reverse l.position
      m.position t
    have hcloser : l.opening.closer = m.opening.closer :=
      congrArg ("end" ++ ·) (Opening.word_eq_of_stage hlevel.stage)
    unfold Builder.turn
    dsimp only
    split <;> split <;> simp_all only [Option.map_none, Option.map_some, reduceCtorEq,
      Option.some.injEq, Turn.stage?]
    · exact .inl ⟨_, rfl, rfl⟩
    · exact .inr ⟨_, _, rfl, rfl, List.Forall₂.cons ⟨hturn, hlevel.position⟩ houter⟩
    · exact .inr ⟨_, _, rfl, rfl, houter⟩

/-- A tag does the same to both. -/
theorem Alike.step_tag (h : b.Alike c) (t : Tag) (p : Position) :
    EndAlike (b.step (.tag t p)) (c.step (.tag t p)) := by
  unfold step
  dsimp only
  split
  · exact .inr ⟨_, _, rfl, rfl, h⟩
  · split
    · exact .inr ⟨_, _, rfl, rfl, List.Forall₂.cons ⟨rfl, rfl⟩ h⟩
    · exact h.turn t p

/-- What is still open at the end is the same in both. -/
theorem Alike.finish_eq_error_iff (h : b.Alike c) (e : ParseError) :
    b.finish = .error e ↔ c.finish = .error e := by
  obtain ⟨levels, current⟩ := b
  obtain ⟨levels', current'⟩ := c
  cases h with
  | nil => simp [finish]
  | cons hlevel houter =>
    simp [finish, hlevel.position, Opening.closer, Opening.word_eq_of_stage hlevel.stage]

end Builder

/-- However sources are read, the tags in the same pieces do the same. -/
theorem Builder.Alike.foldlM_tokensOf (o o' : ParserOptions) (afterTag : Bool) (ps : List Piece)
    {b c : Builder} (h : b.Alike c) :
    EndAlike ((tokensOf o afterTag ps).foldlM Builder.step b)
      ((tokensOf o' afterTag ps).foldlM Builder.step c) := by
  induction ps generalizing afterTag b c with
  | nil => exact .inr ⟨b, c, rfl, rfl, h⟩
  | cons p rest ih =>
    unfold tokensOf
    split
    · -- a text stands in a block or it does not
      generalize (if afterTag && o.trimBlocks then dropLineBreak p.lexeme else p.lexeme) = x
      generalize (if afterTag && o'.trimBlocks then dropLineBreak p.lexeme else p.lexeme) = y
      dsimp only
      split <;> split
      · exact ih _ h
      · exact ih _ (h.add_right _)
      · exact ih _ (h.add_left _)
      · exact ih _ ((h.add_left _).add_right _)
    · exact ih _ h
    · exact ih _ ((h.add_left _).add_right _)
    · next t position _ =>
      simp only [List.foldlM_cons]
      obtain ⟨e, hb, hc⟩ | ⟨b', c', hb, hc, h'⟩ := h.step_tag t position
      · rw [hb, hc]
        exact .inl ⟨e, rfl, rfl⟩
      · rw [hb, hc]
        exact ih _ h'

/-- However a source is read, its tags nest with the same error or with none. -/
theorem ofTokens_tokensOf_eq_error_iff (o o' : ParserOptions) (ps : List Piece) (e : ParseError) :
    Block.ofTokens (tokensOf o false ps) = .error e ↔
      Block.ofTokens (tokensOf o' false ps) = .error e := by
  have h : Builder.empty.Alike .empty := List.Forall₂.nil
  unfold Block.ofTokens
  obtain ⟨e', hb, hc⟩ | ⟨b, c, hb, hc, h'⟩ := h.foldlM_tokensOf o o' false ps
  · rw [hb, hc]
  · rw [hb, hc]
    exact h'.finish_eq_error_iff e

end TemplateEngine
