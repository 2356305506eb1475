import TemplateEngine.Source.Tag

/-!
# Pieces of a source

A source is a run of pieces without gaps: text, comments, output tags and statement tags. Each
piece keeps the characters it was read from, so the pieces of a source laid end to end are the
source.
-/

namespace TemplateEngine

open Scanner

/-- What a piece is. -/
inductive Content
  | text
  | comment
  | output (value : Expr)
  | statement (tag : Tag) (position : Position)

/-- A piece and the characters it was read from. -/
structure Piece where
  lexeme : List Char
  content : Content

/-- The rest begins a comment or a tag. -/
def beginsTag : List Char → Bool
  | '\x7b' :: c :: _ => c = '\x7b' || c = '%' || c = '#'
  | _ => false

/-- The characters before the next comment or tag. -/
def textBefore : List Char → List Char
  | [] => []
  | c :: rest => if beginsTag (c :: rest) then [] else c :: textBefore rest

/-- The characters before the end of a comment. -/
def commentBody : List Char → List Char
  | [] => []
  | '#' :: '\x7d' :: _ => []
  | c :: rest => c :: commentBody rest

/-- Text up to the next comment or tag. -/
def textPiece : Scanner Content := rule fun c =>
  match textBefore c.rest with
  | [] => ⟨none, 0⟩
  | taken => ⟨some (.text, c.drop taken), 0⟩

/-- A comment. -/
def commentPiece : Scanner Content := rule do
  exactly "\x7b#"
  fun c => ⟨some ((), c.drop (commentBody c.rest)), 0⟩
  exactly "#\x7d"
  pure .comment

/-- An expression between doubled braces. -/
def outputPiece : Scanner Content := rule do
  exactly "\x7b\x7b"
  blanks
  let e ← expression
  blanks
  exactly "\x7d\x7d"
  pure (.output e)

/-- A statement tag. -/
def statementPiece : Scanner Content := rule do
  let p ← here
  exactly "\x7b%"
  blanks
  let t ← tag
  blanks
  exactly "%\x7d"
  pure (.statement t p)

/-- A piece with its characters. -/
def piece : Scanner Piece := fun c =>
  (do
    let content ← firstOf [commentPiece, outputPiece, statementPiece, textPiece]
    fun c' => ⟨some (⟨c.rest.take (c'.offset - c.offset), content⟩, c'), 0⟩ : Scanner Piece) c

/-- At most `n` pieces. -/
def piecesWithin : Nat → Scanner (List Piece)
  | 0 => pure []
  | n + 1 => do
    match ← optional piece with
    | none => pure []
    | some p => do
      let rest ← piecesWithin n
      pure (p :: rest)

/-- The end of the source. -/
def endOfSource : Scanner Unit := rule fun c =>
  if c.rest.isEmpty then ⟨some ((), c), 0⟩ else ⟨none, 0⟩

/-- The pieces of a whole source, or the place where reading stopped. -/
def piecesOf (source : List Char) : Except Position (List Piece) :=
  let all : Scanner (List Piece) := do
    let pieces ← piecesWithin source.length
    endOfSource
    pure pieces
  match all (.start source) with
  | ⟨some (pieces, _), _⟩ => .ok pieces
  | ⟨none, reach⟩ => .error (Position.start.after (source.take reach))

end TemplateEngine
