import TemplateEngine.Source.Lexeme
import TemplateEngine.Source.Precedence

/-!
# Reading expressions

Each scanner here is one rule of the grammar of expressions. Rules that contain expressions take
the scanner for them as a parameter; `expressionWithin` ties the knot for a bounded number of
levels, and `expression` allows as many levels as there are characters left.
-/

namespace TemplateEngine

open Scanner

variable {α : Type}

/-! ## Operators -/

/-- A sign of its own rule. -/
def sign (op : α) (text : String) : Scanner α := rule do
  exactly text
  pure op

/-- A word operator. -/
def wordSign (op : α) (text : String) : Scanner α := rule do
  let _ ← wordThat (· = text)
  pure op

/-- The remainder sign, which is not one in front of a closing brace. -/
def remSign : Scanner BinaryOp := rule fun c =>
  match c.rest with
  | '%' :: '\x7d' :: _ => ⟨none, 0⟩
  | _ => (do exactly "%"; pure .rem : Scanner BinaryOp) c

/-- An operator before an operand. -/
def unarySign : Scanner UnarySign := do
  let p ← here
  let op ← firstOf [wordSign .not "not", sign .neg "-"]
  pure ⟨op, p⟩

/-- An operator between two operands. -/
def binarySign : Scanner BinarySign := do
  let p ← here
  let op ← firstOf [
    wordSign .or "or", wordSign .and "and",
    sign .eq "==", sign .ne "!=", sign .le "<=", sign .ge ">=", sign .lt "<", sign .gt ">",
    sign .concat "~", sign .add "+", sign .sub "-", sign .mul "*", sign .div "/", remSign]
  pure ⟨op, p⟩

/-! ## Operands -/

section

variable (expression : Scanner Expr)

/-- A dot and the name of a member. -/
def memberAccess : Scanner (Expr → Expr) := rule do
  let p ← here
  exactly "."
  blanks
  let name ← identifier
  pure fun target => .member target name p

/-- A key between square brackets. -/
def indexAccess : Scanner (Expr → Expr) := rule do
  let p ← here
  exactly "["
  blanks
  let key ← expression
  blanks
  exactly "]"
  pure fun target => .index target key p

/-- Arguments between parentheses. -/
def callAccess : Scanner (Expr → Expr) := rule do
  let p ← here
  exactly "("
  blanks
  let args ← optional (separated expression)
  blanks
  exactly ")"
  pure fun callee => .call callee (args.getD []) p

/-- What is reached from an operand. -/
def accessor : Scanner (Expr → Expr) :=
  firstOf [memberAccess, indexAccess expression, callAccess expression]

/-- Values with commas between, of which one may follow the last. -/
def listed (item : Scanner α) : Scanner (List α) := do
  let items ← separated item
  blanks
  let _ ← optional (exactly ",")
  pure items

/-- A list literal. -/
def listLiteral : Scanner Expr := rule do
  let p ← here
  exactly "["
  blanks
  let items ← optional (listed expression)
  blanks
  exactly "]"
  pure (.list (items.getD []) p)

/-- A key, a colon and a value. -/
def mapEntry : Scanner (String × Expr) := rule do
  let key ← orElse identifier stringLiteral
  blanks
  exactly ":"
  blanks
  let value ← expression
  pure (key, value)

/-- A map literal. -/
def mapLiteral : Scanner Expr := rule do
  let p ← here
  exactly "\x7b"
  blanks
  let entries ← optional (listed (mapEntry expression))
  blanks
  exactly "\x7d"
  pure (.map (entries.getD []) p)

/-- An expression between parentheses, which only group. -/
def grouped : Scanner Expr := do
  exactly "("
  blanks
  let e ← expression
  blanks
  exactly ")"
  pure e

/-- A constant, a collection, a variable or a group. -/
def primary : Scanner Expr := do
  let p ← here
  firstOf [
    do let value ← literal; pure (.literal value p),
    listLiteral expression,
    mapLiteral expression,
    do let name ← identifier; pure (.var ⟨name, .global, p⟩),
    grouped expression]

/-- A primary and what is reached from it. -/
def operand : Scanner Expr := rule do
  let first ← primary expression
  blanks
  let accessors ← many (accessor expression)
  pure (accessors.foldl (fun e access => access e) first)

/-- An operator with its right operand. -/
def link : Scanner (Link Expr) := do
  let op ← binarySign
  blanks
  let unary ← many unarySign
  blanks
  let right ← operand expression
  pure ⟨op, unary, right⟩

/-- Operands with operators before and between them. -/
def chain : Scanner (Chain Expr) := rule do
  let unary ← many unarySign
  blanks
  let head ← operand expression
  blanks
  let links ← many (link expression)
  pure ⟨unary, head, links⟩

end

/-- A chain of operators as an expression, over expressions that are nested one level deeper. -/
def grouping (deeper : Scanner Expr) : Scanner Expr := do
  let c ← chain deeper
  pure c.toTree.toExpr

/-- An expression in which there are no more levels of nesting than `room` has characters. -/
def expressionWithin : List Char → Scanner Expr
  | [] => grouping fail
  | _ :: room => grouping (expressionWithin room)

/-- An expression. Every level of nesting takes a character, so the levels allowed are no limit. -/
def expression : Scanner Expr := fun c => expressionWithin c.rest c

/-- An operand that stands alone, such as the target of an assignment. -/
def target : Scanner Expr := fun c => operand (expressionWithin c.rest) c

end TemplateEngine
