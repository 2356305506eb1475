import TemplateEngine.Source.Fault
import TemplateEngine.Source.Piece
import TemplateEngine.Syntax.Stmt

/-!
# Building blocks from tags

Tags are taken in one by one. A tag that opens a block puts the block it stands in aside and
starts a new one; a tag that divides or closes has to fit the innermost open construct, and is an
error at once if it does not. What is still open at the end is an error at the innermost opening
tag.
-/

namespace TemplateEngine

/-- A piece of a source as far as it matters for statements. -/
inductive Token
  | text (content : String)
  | output (value : Expr)
  | tag (tag : Tag) (position : Position)

/-- An open construct with what has been read of it before the block at hand. -/
inductive Opening
  | branch (done : List (Expr × Block)) (condition : Expr)
  | otherwise (branches : List (Expr × Block))
  | each (ref : VarRef) (items : Expr)
  | eachOtherwise (ref : VarRef) (items : Expr) (body : Block)
  | while (condition : Expr)
  | function (name : VarRef) (params : List String)
  | capture (target : Expr)

namespace Opening

/-- The keyword that opened the construct. -/
def word : Opening → String
  | .branch .. | .otherwise .. => "if"
  | .each .. | .eachOtherwise .. => "for"
  | .while .. => "while"
  | .function .. => "function"
  | .capture .. => "capture"

/-- The keyword that closes it. -/
def closer (o : Opening) : String := "end" ++ o.word

end Opening

/-- What a tag does to the construct whose block it ends. -/
inductive Turn
  /-- The construct goes on with another block. -/
  | divides (opening : Opening)
  /-- The construct is complete. -/
  | closes (statement : Stmt)

/-- Ends the block of a construct with a tag. -/
def Opening.turn? (o : Opening) (body : Block) (position : Position) (tag : Tag) : Option Turn :=
  match o, tag with
  | .branch done c, .elif next => some (.divides (.branch (done ++ [(c, body)]) next))
  | .branch done c, .else => some (.divides (.otherwise (done ++ [(c, body)])))
  | .branch done c, .endif => some (.closes (.choose (done ++ [(c, body)]) none))
  | .otherwise branches, .endif => some (.closes (.choose branches (some body)))
  | .each ref items, .else => some (.divides (.eachOtherwise ref items body))
  | .each ref items, .endfor => some (.closes (.each ref items body none position))
  | .eachOtherwise ref items done, .endfor =>
    some (.closes (.each ref items done (some body) position))
  | .while c, .endwhile => some (.closes (.repeatWhile c body position))
  | .function name params, .endfunction => some (.closes (.define 0 name params body position))
  | .capture target, .endcapture => some (.closes (.capture target body))
  | _, _ => none

/-- The construct that a tag opens. -/
def Tag.opens? : Tag → Option Opening
  | .if c => some (.branch [] c)
  | .for ref items => some (.each ref items)
  | .while c => some (.while c)
  | .function name params => some (.function name params)
  | .capture target => some (.capture target)
  | _ => none

/-- The statement that a tag is by itself. -/
def Tag.statement? (position : Position) : Tag → Option Stmt
  | .set target value => some (.assign target value)
  | .setGlobal ref value => some (.assignGlobal ref value)
  | .return value => some (.leave value position)
  | .break => some (.stop position)
  | .continue => some (.next position)
  | .include path model => some (.include path model position)
  | _ => none

/-- An open construct, where it was opened, and the statements before it in reverse. -/
structure Level where
  opening : Opening
  position : Position
  before : List Stmt

/-- The open constructs, innermost first, and the statements of the block at hand in reverse. -/
structure Builder where
  levels : List Level
  current : List Stmt

namespace Builder

/-- Nothing has been read. -/
def empty : Builder := ⟨[], []⟩

/-- Adds a statement to the block at hand. -/
def add (b : Builder) (s : Stmt) : Builder := ⟨b.levels, s :: b.current⟩

/-- Ends the block at hand with a tag that divides or closes. -/
def turn (b : Builder) (tag : Tag) (position : Position) : Except ParseError Builder :=
  match b.levels with
  | [] => .error ⟨position, .unexpectedTag tag.word none⟩
  | level :: outer =>
    match level.opening.turn? b.current.reverse level.position tag with
    | none => .error ⟨position, .unexpectedTag tag.word (some level.opening.closer)⟩
    | some (.divides opening) => .ok ⟨⟨opening, level.position, level.before⟩ :: outer, []⟩
    | some (.closes s) => .ok ⟨outer, s :: level.before⟩

/-- Takes in one token. -/
def step (b : Builder) : Token → Except ParseError Builder
  | .text content => .ok (b.add (.text content))
  | .output value => .ok (b.add (.output value))
  | .tag tag position =>
    match tag.statement? position with
    | some s => .ok (b.add s)
    | none =>
      match tag.opens? with
      | some opening => .ok ⟨⟨opening, position, b.current⟩ :: b.levels, []⟩
      | none => b.turn tag position

/-- The block that was read, if nothing is open. -/
def finish (b : Builder) : Except ParseError Block :=
  match b.levels with
  | [] => .ok b.current.reverse
  | level :: _ =>
    .error ⟨level.position, .unclosedTag level.opening.word level.opening.closer⟩

end Builder

/-- The block that a run of tokens is. -/
def Block.ofTokens (tokens : List Token) : Except ParseError Block := do
  let b ← tokens.foldlM Builder.step .empty
  b.finish

end TemplateEngine
