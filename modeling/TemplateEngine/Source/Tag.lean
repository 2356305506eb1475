import TemplateEngine.Source.Expression

/-!
# Statement tags

What stands between `{%` and `%}`: a keyword and its operands. Tags are flat; which of them belong
together is found when blocks are built.
-/

namespace TemplateEngine

open Scanner

/-- A statement tag. -/
inductive Tag
  | set (target value : Expr)
  | setGlobal (ref : VarRef) (value : Expr)
  | if (condition : Expr)
  | elif (condition : Expr)
  | else
  | endif
  | for (ref : VarRef) (items : Expr)
  | endfor
  | while (condition : Expr)
  | endwhile
  | break
  | continue
  | function (name : VarRef) (params : List String)
  | endfunction
  | return (value : Option Expr)
  | capture (target : Expr)
  | endcapture
  | include (path : Expr) (model : Option Expr)

namespace Tag

/-- The keyword that the tag begins with. -/
def word : Tag → String
  | .set .. => "set"
  | .setGlobal .. => "global"
  | .if .. => "if"
  | .elif .. => "elif"
  | .else => "else"
  | .endif => "endif"
  | .for .. => "for"
  | .endfor => "endfor"
  | .while .. => "while"
  | .endwhile => "endwhile"
  | .break => "break"
  | .continue => "continue"
  | .function .. => "function"
  | .endfunction => "endfunction"
  | .return .. => "return"
  | .capture .. => "capture"
  | .endcapture => "endcapture"
  | .include .. => "include"

/-- The expressions of a tag in the order in which they are written. -/
def exprs : Tag → List Expr
  | .set target value => [target, value]
  | .setGlobal _ value => [value]
  | .if c | .elif c | .while c => [c]
  | .for _ items => [items]
  | .return value => value.toList
  | .capture target => [target]
  | .include path model => path :: model.toList
  | _ => []

end Tag

/-- A name bound in a scope. -/
def bound (scope : ScopeKind) : Scanner VarRef := do
  let p ← here
  let name ← identifier
  pure ⟨name, scope, p⟩

/-- A tag that is its keyword alone. -/
def bareTag (tag : Tag) : Scanner Tag := rule do
  keyword tag.word
  pure tag

/-- A keyword and one expression. -/
def exprTag (word : String) (make : Expr → Tag) : Scanner Tag := rule do
  keyword word
  blanks
  let e ← expression
  pure (make e)

/-- An assignment; its target is one operand. -/
def setTag : Scanner Tag := rule do
  keyword "set"
  blanks
  let target ← target
  blanks
  exactly "="
  blanks
  let value ← expression
  pure (.set target value)

/-- An assignment to a global name. -/
def globalTag : Scanner Tag := rule do
  keyword "global"
  blanks
  let ref ← bound .global
  blanks
  exactly "="
  blanks
  let value ← expression
  pure (.setGlobal ref value)

/-- Between the variable and the items stands any keyword that begins with `in`. -/
def forTag : Scanner Tag := rule do
  keyword "for"
  blanks
  let ref ← bound .loop
  blanks
  keyword "in"
  blanks
  let items ← expression
  pure (.for ref items)

/-- A name and its parameters, between parentheses even if there are none. -/
def functionTag : Scanner Tag := rule do
  keyword "function"
  blanks
  let name ← bound .global
  blanks
  exactly "("
  blanks
  let params ← optional (separated identifier)
  blanks
  exactly ")"
  pure (.function name (params.getD []))

/-- A value may be left out. -/
def returnTag : Scanner Tag := rule do
  keyword "return"
  blanks
  let value ← optional expression
  pure (.return value)

/-- The target that the text of the block is assigned to. -/
def captureTag : Scanner Tag := rule do
  keyword "capture"
  blanks
  let target ← target
  pure (.capture target)

/-- A path, and a model if one is given. -/
def includeTag : Scanner Tag := rule do
  keyword "include"
  blanks
  let path ← expression
  blanks
  let model ← optional do
    keyword "with"
    blanks
    expression
  pure (.include path model)

/-- A statement tag without its braces. -/
def tag : Scanner Tag := firstOf [
  setTag, globalTag,
  exprTag "if" .if, exprTag "elif" .elif, bareTag .else, bareTag .endif,
  forTag, bareTag .endfor,
  exprTag "while" .while, bareTag .endwhile,
  bareTag .break, bareTag .continue,
  functionTag, bareTag .endfunction, returnTag,
  captureTag, bareTag .endcapture,
  includeTag]

end TemplateEngine
