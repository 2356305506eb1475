import TemplateEngine.Source.Nesting
import TemplateEngine.Source.Scope

/-!
# Reading templates

A source becomes a template in steps, each of which can refuse it: the whole text has to follow
the grammar, every integer literal has to be in range, tags have to nest, and loop controls have
to stand in loops. The first step that finds a fault reports it. Last, names are given their
scopes.
-/

namespace TemplateEngine

/-- How sources are read. -/
structure ParserOptions where
  /-- A line break right behind a statement tag is dropped. -/
  trimBlocks : Bool
deriving DecidableEq

namespace ParserOptions

/-- Text is kept as it is. -/
def plain : ParserOptions := ⟨false⟩

instance : Inhabited ParserOptions := ⟨plain⟩

end ParserOptions

/-! ## Literals in range -/

mutual

/-- The place of the first integer literal in an expression that is out of range. -/
def Expr.oversized? : Expr → Option Position
  | .literal (.int n) p => if Integer.Fits n then none else some p
  | .literal _ _ => none
  | .var _ => none
  | .member target _ _ => target.oversized?
  | .index target key _ => target.oversized?.or key.oversized?
  | .call callee args _ => callee.oversized?.or (oversizedItem? args)
  | .list items _ => oversizedItem? items
  | .map entries _ => oversizedValue? entries
  | .unary _ operand _ => operand.oversized?
  | .binary _ left right _ => left.oversized?.or right.oversized?

/-- The place of the first integer literal in expressions that is out of range. -/
def oversizedItem? : List Expr → Option Position
  | [] => none
  | e :: rest => e.oversized?.or (oversizedItem? rest)

/-- The place of the first integer literal in map entries that is out of range. -/
def oversizedValue? : List (String × Expr) → Option Position
  | [] => none
  | (_, e) :: rest => e.oversized?.or (oversizedValue? rest)

end

/-- The expressions of a piece in the order in which they are written. -/
def Content.exprs : Content → List Expr
  | .output value => [value]
  | .statement tag _ => tag.exprs
  | _ => []

/-! ## From pieces to templates -/

/-- Drops one line break at the beginning. -/
def dropLineBreak : List Char → List Char
  | '\r' :: '\n' :: rest => rest
  | '\n' :: rest => rest
  | text => text

/-- The tokens of pieces: comments go, and with them text that is empty after trimming. The flag
says that a statement tag stands right before. -/
def tokensOf (options : ParserOptions) (afterTag : Bool) : List Piece → List Token
  | [] => []
  | p :: rest =>
    match p.content with
    | .text =>
      let text := if afterTag && options.trimBlocks then dropLineBreak p.lexeme else p.lexeme
      let tokens := tokensOf options false rest
      if text.isEmpty then tokens else .text (String.ofList text) :: tokens
    | .comment => tokensOf options false rest
    | .output value => .output value :: tokensOf options false rest
    | .statement tag position => .tag tag position :: tokensOf options true rest

/-- The block that a source is. -/
def parseBlock (source : String) (options : ParserOptions) : Except ParseError Block := do
  let pieces ← (piecesOf source.toList).mapError fun p => ⟨p, .grammar⟩
  match (pieces.flatMap (·.content.exprs)).findSome? Expr.oversized? with
  | some p => .error ⟨p, .literalRange⟩
  | none => pure ()
  let block ← Block.ofTokens (tokensOf options false pieces)
  match strayControl? false block with
  | some e => .error e
  | none => pure (resolveBlock .top block)

/-- A source that is not made of pieces is refused. -/
theorem parseBlock_of_error {source : String} {options : ParserOptions} {p : Position}
    (h : piecesOf source.toList = .error p) : parseBlock source options = .error ⟨p, .grammar⟩ := by
  unfold parseBlock
  rw [h]
  rfl

/-- What a source is once its pieces are found. -/
theorem parseBlock_of_ok {source : String} {options : ParserOptions} {pieces : List Piece}
    (h : piecesOf source.toList = .ok pieces) :
    parseBlock source options = (do
      match (pieces.flatMap (·.content.exprs)).findSome? Expr.oversized? with
      | some p => .error ⟨p, .literalRange⟩
      | none => pure ()
      let block ← Block.ofTokens (tokensOf options false pieces)
      match strayControl? false block with
      | some e => .error e
      | none => pure (resolveBlock .top block)) := by
  unfold parseBlock
  rw [h]
  rfl

/-- The template that a source is. -/
def Template.parse (name source : String) (options : ParserOptions) :
    Except ParseError Template := do
  let block ← parseBlock source options
  pure ⟨0, name, block⟩

end TemplateEngine
