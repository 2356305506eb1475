import TemplateEngine.Number.Decimal
import TemplateEngine.Syntax.Expr
import TemplateEngine.Text.Quoted

/-!
# Written form of expressions

How an expression is named in a message: as it would be written, without the parentheses that
only group.
-/

namespace TemplateEngine

/-- The written form of a constant. -/
def Literal.display : Literal → String
  | .null => "null"
  | .bool b => if b then "true" else "false"
  | .int n => toString n
  | .float x => Layout.compact.float x
  | .text s => Text.quoted s

mutual

/-- The written form of an expression. -/
def Expr.display : Expr → String
  | .literal value _ => value.display
  | .var ref => ref.name
  | .member target name _ => target.display ++ "." ++ name
  | .index target key _ => target.display ++ "[" ++ key.display ++ "]"
  | .call callee args _ => callee.display ++ "(" ++ displayItems args ++ ")"
  | .list items _ => "[" ++ displayItems items ++ "]"
  | .map entries _ => "\x7b" ++ displayEntries entries ++ "\x7d"
  | .unary .not operand _ => "not " ++ operand.display
  | .unary .neg operand _ => "-" ++ operand.display
  | .binary op left right _ => left.display ++ " " ++ op.symbol ++ " " ++ right.display

/-- Expressions with commas between. -/
def displayItems : List Expr → String
  | [] => ""
  | [e] => e.display
  | e :: rest => e.display ++ ", " ++ displayItems rest

/-- Keys and values with commas between. -/
def displayEntries : List (String × Expr) → String
  | [] => ""
  | [(key, e)] => key ++ ": " ++ e.display
  | (key, e) :: rest => key ++ ": " ++ e.display ++ ", " ++ displayEntries rest

end

end TemplateEngine
