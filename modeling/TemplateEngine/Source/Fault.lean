import TemplateEngine.Position

/-!
# Why a source is refused
-/

namespace TemplateEngine

/-- What is wrong with a source. -/
inductive ParseFault
  /-- The text does not follow the grammar. -/
  | grammar
  /-- An integer literal that no integer value can hold. -/
  | literalRange
  /-- A tag that closes or divides nothing here; if a block is open, the tag that it waits for. -/
  | unexpectedTag (tag : String) (expected : Option String)
  /-- A block that is still open at the end. -/
  | unclosedTag (tag : String) (expected : String)
  /-- A loop control without a loop around it. -/
  | outsideLoop (keyword : String)
deriving DecidableEq

namespace ParseFault

/-- The wording of the fault. -/
def message : ParseFault → String
  | .grammar => "the text does not follow the grammar"
  | .literalRange => "integer literal out of range"
  | .unexpectedTag tag none => s!"unexpected `{tag}` tag"
  | .unexpectedTag tag (some expected) => s!"unexpected `{tag}` tag, expected `{expected}`"
  | .unclosedTag tag expected => s!"unclosed `{tag}` tag, expected `{expected}`"
  | .outsideLoop keyword => s!"`{keyword}` outside of a loop"

end ParseFault

/-- A fault and its place. -/
structure ParseError where
  position : Position
  fault : ParseFault
deriving DecidableEq

namespace ParseError

/-- The wording of the refusal, with its place. -/
def message (e : ParseError) : String :=
  s!"parse error at line {e.position.line}, column {e.position.column}: {e.fault.message}"

end ParseError

end TemplateEngine
