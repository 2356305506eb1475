import TemplateEngine.Source.Fault
import TemplateEngine.Syntax.Stmt

/-!
# Where names are looked up

Every use of a name is given its scope before anything runs. A name bound by a `for` around the
use, or `loop` inside any `for`, is looked up in the loop frame; inside a function body the
parameters and every name that the body assigns bare are local, wherever in the body they are
used; all other names are global. A function body starts afresh: it sees no loop around its
definition and no local of another body. The same walk finds loop controls with no loop around
them.
-/

namespace TemplateEngine

/-! ## Assigned names -/

mutual

/-- The names a statement assigns bare, outside of function definitions in it. -/
def Stmt.assignedNames : Stmt → List String
  | .assign (.var ref) _ => [ref.name]
  | .choose branches otherwise =>
    assignedInBranches branches ++
      match otherwise with
      | none => []
      | some block => assignedNames block
  | .each _ _ body otherwise _ =>
    assignedNames body ++
      match otherwise with
      | none => []
      | some block => assignedNames block
  | .repeatWhile _ body _ => assignedNames body
  | .capture target body =>
    (match target with
      | .var ref => [ref.name]
      | _ => []) ++ assignedNames body
  | _ => []

/-- The names a block assigns bare, outside of function definitions in it. -/
def assignedNames : List Stmt → List String
  | [] => []
  | s :: rest => s.assignedNames ++ assignedNames rest

/-- The names that the bodies of branches assign bare. -/
def assignedInBranches : List (Expr × List Stmt) → List String
  | [] => []
  | (_, body) :: rest => assignedNames body ++ assignedInBranches rest

end

/-! ## Scopes -/

/-- What surrounds a place in a template: the local names and, innermost first, the loops with
the variable of those that have one. -/
structure Scope where
  locals : List String
  loops : List (Option String)

namespace Scope

/-- The top level of a template. -/
def top : Scope := ⟨[], []⟩

/-- The top level of a function body. -/
def body (params : List String) (block : Block) : Scope := ⟨params ++ assignedNames block, []⟩

/-- Inside one more loop. -/
def inside (s : Scope) (name : Option String) : Scope := ⟨s.locals, name :: s.loops⟩

/-- The scope of a name used here. -/
def kindOf (s : Scope) (name : String) : ScopeKind :=
  if s.loops.contains (some name) || (name = "loop" && s.loops.any Option.isSome) then .loop
  else if s.locals.contains name then .locals
  else .global

end Scope

mutual

/-- Gives every name in an expression its scope. -/
def Expr.resolve (s : Scope) : Expr → Expr
  | .literal value p => .literal value p
  | .var ref => .var ⟨ref.name, s.kindOf ref.name, ref.position⟩
  | .member target name p => .member (target.resolve s) name p
  | .index target key p => .index (target.resolve s) (key.resolve s) p
  | .call callee args p => .call (callee.resolve s) (resolveItems s args) p
  | .list items p => .list (resolveItems s items) p
  | .map entries p => .map (resolveEntries s entries) p
  | .unary op operand p => .unary op (operand.resolve s) p
  | .binary op left right p => .binary op (left.resolve s) (right.resolve s) p

/-- Gives every name in expressions its scope. -/
def resolveItems (s : Scope) : List Expr → List Expr
  | [] => []
  | e :: rest => e.resolve s :: resolveItems s rest

/-- Gives every name in the values of a map literal its scope. -/
def resolveEntries (s : Scope) : List (String × Expr) → List (String × Expr)
  | [] => []
  | (key, e) :: rest => (key, e.resolve s) :: resolveEntries s rest

end

mutual

/-- Gives every name in a statement its scope. -/
def Stmt.resolve (s : Scope) : Stmt → Stmt
  | .text content => .text content
  | .output value => .output (value.resolve s)
  | .assign target value => .assign (target.resolve s) (value.resolve s)
  | .assignGlobal ref value => .assignGlobal ref (value.resolve s)
  | .choose branches otherwise =>
    .choose (resolveBranches s branches)
      (match otherwise with
        | none => none
        | some block => some (resolveBlock s block))
  | .each ref items body otherwise p =>
    .each ref (items.resolve s) (resolveBlock (s.inside (some ref.name)) body)
      (match otherwise with
        | none => none
        | some block => some (resolveBlock s block)) p
  | .repeatWhile c body p => .repeatWhile (c.resolve s) (resolveBlock (s.inside none) body) p
  | .define n name params body p =>
    .define n name params (resolveBlock (Scope.body params body) body) p
  | .leave value p => .leave (value.map (·.resolve s)) p
  | .stop p => .stop p
  | .next p => .next p
  | .capture target body => .capture (target.resolve s) (resolveBlock s body)
  | .include path model p => .include (path.resolve s) (model.map (·.resolve s)) p

/-- Gives every name in a block its scope. -/
def resolveBlock (s : Scope) : List Stmt → List Stmt
  | [] => []
  | stmt :: rest => stmt.resolve s :: resolveBlock s rest

/-- Gives every name in branches its scope. -/
def resolveBranches (s : Scope) : List (Expr × List Stmt) → List (Expr × List Stmt)
  | [] => []
  | (c, body) :: rest => (c.resolve s, resolveBlock s body) :: resolveBranches s rest

end

/-! ## Loop controls -/

mutual

/-- The first loop control of a statement that no loop surrounds. -/
def Stmt.strayControl? (inLoop : Bool) : Stmt → Option ParseError
  | .stop p => if inLoop then none else some ⟨p, .outsideLoop "break"⟩
  | .next p => if inLoop then none else some ⟨p, .outsideLoop "continue"⟩
  | .choose branches otherwise =>
    (strayInBranches? inLoop branches).or
      (match otherwise with
        | none => none
        | some block => strayControl? inLoop block)
  | .each _ _ body otherwise _ =>
    (strayControl? true body).or
      (match otherwise with
        | none => none
        | some block => strayControl? inLoop block)
  | .repeatWhile _ body _ => strayControl? true body
  | .define _ _ _ body _ => strayControl? false body
  | .capture _ body => strayControl? inLoop body
  | _ => none

/-- The first loop control of a block that no loop surrounds. -/
def strayControl? (inLoop : Bool) : List Stmt → Option ParseError
  | [] => none
  | s :: rest => (s.strayControl? inLoop).or (strayControl? inLoop rest)

/-- The first loop control in the bodies of branches that no loop surrounds. -/
def strayInBranches? (inLoop : Bool) : List (Expr × List Stmt) → Option ParseError
  | [] => none
  | (_, body) :: rest => (strayControl? inLoop body).or (strayInBranches? inLoop rest)

end

end TemplateEngine
