import TemplateEngine.Syntax.Expr

/-!
# Statements and templates

A template is a named block of statements. Definitions of functions carry an identity, by which
two functions are told apart even if they are spelled alike; a freshly read template has the
identity 0 everywhere, and `Template.identify` numbers it.
-/

namespace TemplateEngine

/-- A statement. -/
inductive Stmt
  /-- Text that is copied out. -/
  | text (content : String)
  /-- Writes the value of an expression. -/
  | output (value : Expr)
  /-- Assigns to a variable, a member or an item. -/
  | assign (target value : Expr)
  /-- Assigns to a global variable, whatever the name is bound to nearby. -/
  | assignGlobal (ref : VarRef) (value : Expr)
  /-- The first branch whose condition holds, or else the block behind them. -/
  | choose (branches : List (Expr × List Stmt)) (otherwise : Option (List Stmt))
  /-- The body once for every item; the other block if there is none. -/
  | each (ref : VarRef) (items : Expr) (body : List Stmt) (otherwise : Option (List Stmt))
      (position : Position)
  /-- The body as long as the condition holds. -/
  | repeatWhile (condition : Expr) (body : List Stmt) (position : Position)
  /-- Binds a function to a global name. -/
  | define (identity : Nat) (name : VarRef) (params : List String) (body : List Stmt)
      (position : Position)
  /-- Ends the function, the included template or the template. -/
  | leave (value : Option Expr) (position : Position)
  /-- Ends the innermost loop. -/
  | stop (position : Position)
  /-- Ends this round of the innermost loop. -/
  | next (position : Position)
  /-- Assigns the text that the body writes. -/
  | capture (target : Expr) (body : List Stmt)
  /-- Renders another template in place. -/
  | include (path : Expr) (model : Option Expr) (position : Position)

/-- Statements that run in order. -/
abbrev Block := List Stmt

/-- A function defined by a template. -/
structure FunctionDef where
  identity : Nat
  name : VarRef
  params : List String
  body : Block
  position : Position

/-- A template that has been read. -/
structure Template where
  identity : Nat
  name : String
  body : Block

/-! ## Identities -/

mutual

/-- Numbers the definitions of a statement from `n` on; the second part is the first number that
is still free. -/
def Stmt.identify (n : Nat) : Stmt → Stmt × Nat
  | .choose branches otherwise =>
    let (branches, n) := identifyBranches n branches
    match otherwise with
    | none => (.choose branches none, n)
    | some block =>
      let (block, n) := identifyBlock n block
      (.choose branches (some block), n)
  | .each v items body otherwise p =>
    let (body, n) := identifyBlock n body
    match otherwise with
    | none => (.each v items body none p, n)
    | some block =>
      let (block, n) := identifyBlock n block
      (.each v items body (some block) p, n)
  | .repeatWhile c body p =>
    let (body, n) := identifyBlock n body
    (.repeatWhile c body p, n)
  | .define _ name params body p =>
    let (body, m) := identifyBlock (n + 1) body
    (.define n name params body p, m)
  | .capture target body =>
    let (body, n) := identifyBlock n body
    (.capture target body, n)
  | s => (s, n)

/-- Numbers the definitions of a block. -/
def identifyBlock (n : Nat) : List Stmt → List Stmt × Nat
  | [] => ([], n)
  | s :: rest =>
    let (s, n) := s.identify n
    let (rest, n) := identifyBlock n rest
    (s :: rest, n)

/-- Numbers the definitions in the bodies of branches. -/
def identifyBranches (n : Nat) : List (Expr × List Stmt) → List (Expr × List Stmt) × Nat
  | [] => ([], n)
  | (c, body) :: rest =>
    let (body, n) := identifyBlock n body
    let (rest, n) := identifyBranches n rest
    ((c, body) :: rest, n)

end

/-- Numbers a template and its definitions from `n` on. -/
def Template.identify (n : Nat) (t : Template) : Template × Nat :=
  let (body, m) := identifyBlock (n + 1) t.body
  (⟨n, t.name, body⟩, m)

end TemplateEngine
