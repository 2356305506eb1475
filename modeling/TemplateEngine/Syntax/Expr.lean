import TemplateEngine.Position

/-!
# Expressions

What stands between the braces of an output tag and at the operand places of statement tags.
Every node keeps the place of its own token, which is where an error in it is reported.
-/

namespace TemplateEngine

/-- The chain of frames in which a name is looked up. -/
inductive ScopeKind
  /-- The models and namespaces, innermost first. -/
  | global
  /-- The frame of the active call. -/
  | locals
  /-- The frame of the innermost active loop. -/
  | loop
deriving DecidableEq

/-- A name and where to look it up. -/
structure VarRef where
  name : String
  scope : ScopeKind
  position : Position
deriving DecidableEq

/-- A constant. -/
inductive Literal
  | null
  | bool (b : Bool)
  | int (n : Int)
  | float (x : Float)
  | text (s : String)

/-- An operator before its operand. -/
inductive UnaryOp
  | neg
  | not
deriving DecidableEq

/-- An operator between its operands. -/
inductive BinaryOp
  | add | sub | mul | div | rem
  | concat
  | eq | ne | lt | gt | le | ge
  | and | or
deriving DecidableEq

namespace BinaryOp

/-- The operator as it is written. -/
def symbol : BinaryOp → String
  | .add => "+"
  | .sub => "-"
  | .mul => "*"
  | .div => "/"
  | .rem => "%"
  | .concat => "~"
  | .eq => "=="
  | .ne => "!="
  | .lt => "<"
  | .gt => ">"
  | .le => "<="
  | .ge => ">="
  | .and => "and"
  | .or => "or"

end BinaryOp

/-- An expression. Only variables, members and indexed items can be assigned to. -/
inductive Expr
  | literal (value : Literal) (position : Position)
  | var (ref : VarRef)
  | member (target : Expr) (name : String) (position : Position)
  | index (target : Expr) (key : Expr) (position : Position)
  | call (callee : Expr) (args : List Expr) (position : Position)
  | list (items : List Expr) (position : Position)
  | map (entries : List (String × Expr)) (position : Position)
  | unary (op : UnaryOp) (operand : Expr) (position : Position)
  | binary (op : BinaryOp) (left right : Expr) (position : Position)

namespace Expr

/-- The place of the node's own token. -/
def position : Expr → Position
  | .literal _ p => p
  | .var ref => ref.position
  | .member _ _ p => p
  | .index _ _ p => p
  | .call _ _ p => p
  | .list _ p => p
  | .map _ p => p
  | .unary _ _ p => p
  | .binary _ _ _ p => p

end Expr

end TemplateEngine
