import TemplateEngine.Syntax.Expr

/-!
# Operator precedence

An expression is read as a chain of operands with operators before and between them, and the
chain is grouped into a tree by one pass from left to right. Operators that still wait for their
right side lie on a stack; a new operator first closes those that bind at least as tightly, so
equal operators group to the left. Listing a tree's operands and operators in order gives the
chain back.
-/

namespace TemplateEngine

/-- How tightly a unary operator binds. -/
def UnaryOp.power : UnaryOp → Nat
  | .not => 3
  | .neg => 8

/-- How tightly a binary operator binds. -/
def BinaryOp.power : BinaryOp → Nat
  | .or => 1
  | .and => 2
  | .eq | .ne | .lt | .gt | .le | .ge => 4
  | .concat => 5
  | .add | .sub => 6
  | .mul | .div | .rem => 7

/-- A unary operator where it is written. -/
structure UnarySign where
  op : UnaryOp
  position : Position
deriving DecidableEq

/-- A binary operator where it is written. -/
structure BinarySign where
  op : BinaryOp
  position : Position
deriving DecidableEq

/-- A binary operator and the operand behind it with its own unary operators. -/
structure Link (α : Type) where
  sign : BinarySign
  unary : List UnarySign
  operand : α

/-- Operands with operators before and between them, as they are written. -/
structure Chain (α : Type) where
  unary : List UnarySign
  head : α
  links : List (Link α)

/-- Operators grouped with their operands. -/
inductive OpTree (α : Type)
  | operand (a : α)
  | unary (sign : UnarySign) (operand : OpTree α)
  | binary (left : OpTree α) (sign : BinarySign) (right : OpTree α)

/-- An operator that waits for its right side. -/
inductive Pending (α : Type)
  | unary (sign : UnarySign)
  | binary (left : OpTree α) (sign : BinarySign)

variable {α : Type}

namespace Pending

/-- How tightly the waiting operator binds. -/
def power : Pending α → Nat
  | .unary sign => sign.op.power
  | .binary _ sign => sign.op.power

/-- The operator with its right side. -/
def close (right : OpTree α) : Pending α → OpTree α
  | .unary sign => .unary sign right
  | .binary left sign => .binary left sign right

end Pending

namespace Chain

/-- Closes the waiting operators that bind at least as tightly as `power`. -/
def settle (power : Nat) : List (Pending α) → OpTree α → List (Pending α) × OpTree α
  | [], t => ([], t)
  | p :: ps, t => if power ≤ p.power then settle power ps (p.close t) else (p :: ps, t)

/-- Lays unary operators on the stack, the first one deepest. -/
def await (signs : List UnarySign) (stack : List (Pending α)) : List (Pending α) :=
  signs.foldl (fun stack sign => .unary sign :: stack) stack

/-- Takes in one more operator and the operand behind it. -/
def extend (state : List (Pending α) × OpTree α) (link : Link α) : List (Pending α) × OpTree α :=
  let (stack, left) := settle link.sign.op.power state.1 state.2
  (await link.unary (.binary left link.sign :: stack), .operand link.operand)

/-- Groups a chain by the binding powers of its operators. -/
def toTree (chain : Chain α) : OpTree α :=
  let (stack, last) := chain.links.foldl extend (await chain.unary [], .operand chain.head)
  stack.foldl (fun t p => p.close t) last

end Chain

/-! ## What is written -/

/-- A part of an expression in the order of writing. -/
inductive Item (α : Type)
  | unary (sign : UnarySign)
  | binary (sign : BinarySign)
  | operand (a : α)

/-- The parts of a link. -/
def Link.items (link : Link α) : List (Item α) :=
  .binary link.sign :: (link.unary.map .unary ++ [.operand link.operand])

/-- The parts of a chain. -/
def Chain.items (chain : Chain α) : List (Item α) :=
  chain.unary.map .unary ++ .operand chain.head :: chain.links.flatMap Link.items

/-- The parts of a tree. -/
def OpTree.items : OpTree α → List (Item α)
  | .operand a => [.operand a]
  | .unary sign t => .unary sign :: t.items
  | .binary left sign right => left.items ++ .binary sign :: right.items

/-- The parts of a waiting operator. -/
def Pending.items : Pending α → List (Item α)
  | .unary sign => [.unary sign]
  | .binary left sign => left.items ++ [.binary sign]

/-- The parts of waiting operators, of which the deepest was written first. -/
def Pending.stackItems : List (Pending α) → List (Item α)
  | [] => []
  | p :: ps => stackItems ps ++ p.items

theorem Pending.items_close (p : Pending α) (t : OpTree α) :
    (p.close t).items = p.items ++ t.items := by
  cases p <;> simp [close, OpTree.items, Pending.items]

namespace Chain

open Pending

theorem items_settle (power : Nat) (stack : List (Pending α)) (t : OpTree α) :
    stackItems (settle power stack t).1 ++ (settle power stack t).2.items =
      stackItems stack ++ t.items := by
  induction stack generalizing t with
  | nil => rfl
  | cons p ps ih =>
    simp only [settle]
    split
    · rw [ih, items_close, stackItems, List.append_assoc]
    · rfl

theorem items_await (signs : List UnarySign) (stack : List (Pending α)) :
    stackItems (await signs stack) = stackItems stack ++ signs.map .unary := by
  induction signs generalizing stack with
  | nil => simp [await]
  | cons sign rest ih =>
    have h : await (sign :: rest) stack = await rest (.unary sign :: stack) := rfl
    rw [h, ih, stackItems, Pending.items, List.map_cons, List.append_assoc, List.singleton_append]

theorem items_extend (state : List (Pending α) × OpTree α) (link : Link α) :
    stackItems (extend state link).1 ++ (extend state link).2.items =
      stackItems state.1 ++ state.2.items ++ link.items := by
  have h := items_settle link.sign.op.power state.1 state.2
  simp only [extend, items_await, stackItems, Pending.items, OpTree.items, Link.items]
  rw [← h]
  simp

theorem items_foldl_extend (links : List (Link α)) (state : List (Pending α) × OpTree α) :
    stackItems (links.foldl extend state).1 ++ (links.foldl extend state).2.items =
      stackItems state.1 ++ state.2.items ++ links.flatMap Link.items := by
  induction links generalizing state with
  | nil => simp
  | cons link rest ih =>
    rw [List.foldl_cons, ih, items_extend, List.flatMap_cons, List.append_assoc]

theorem items_foldl_close (stack : List (Pending α)) (last : OpTree α) :
    (stack.foldl (fun t p => p.close t) last).items = stackItems stack ++ last.items := by
  induction stack generalizing last with
  | nil => rfl
  | cons p ps ih => rw [List.foldl_cons, ih, items_close, stackItems, List.append_assoc]

/-- Grouping loses, adds and reorders nothing. -/
theorem items_toTree (chain : Chain α) : chain.toTree.items = chain.items := by
  simp only [toTree, items_foldl_close, items_foldl_extend, items_await, stackItems,
    OpTree.items, Chain.items]
  simp

end Chain

/-- The expression that a tree over expressions is. -/
def OpTree.toExpr : OpTree Expr → Expr
  | .operand e => e
  | .unary sign t => .unary sign.op t.toExpr sign.position
  | .binary l sign r => .binary sign.op l.toExpr r.toExpr sign.position

end TemplateEngine
