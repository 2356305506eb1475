import TemplateEngine.Proofs.Precedence.Levels
import TemplateEngine.Proofs.Precedence.Sources
import TemplateEngine.Syntax.Nodes

/-!
# Expressions as trees of operators

An expression without groups is the tree of its operators over the operands that are no
operations (`Expr.tree`). Places of tokens do not matter to grouping: a chain without places is
grouped to the tree without places (`Chain.toTree_unplaced`).
-/

namespace TemplateEngine

/-! ## Trees -/

/-- The operators of an expression over all that is no operation. -/
def Expr.tree : Expr → OpTree Expr
  | .unary op operand p => .unary ⟨op, p⟩ operand.tree
  | .binary op left right p => .binary left.tree ⟨op, p⟩ right.tree
  | e => .operand e

theorem Expr.tree_eq_operand {e : Expr} (h : e.isOperation = false) : e.tree = .operand e := by
  cases e with
  | unary => cases h
  | binary => cases h
  | _ => rfl

theorem Expr.toExpr_tree (e : Expr) : e.tree.toExpr = e := by
  induction e using Expr.induction with
  | unary op operand p ih => rw [tree, OpTree.toExpr, ih]
  | binary op left right p ihl ihr => rw [tree, OpTree.toExpr, ihl, ihr]
  | _ => rfl

/-- A tree over operands that are no operations is the tree of its expression. -/
theorem OpTree.tree_toExpr {t : OpTree Expr} (h : ∀ o ∈ t.operands, o.isOperation = false) :
    t.toExpr.tree = t := by
  induction t with
  | operand o => exact Expr.tree_eq_operand (h o List.mem_cons_self)
  | unary s t ih =>
    rw [toExpr, Expr.tree, ih h]
  | binary l s r ihl ihr =>
    obtain ⟨hl, hr⟩ := List.forall_mem_append.1 h
    rw [toExpr, Expr.tree, ihl hl, ihr hr]

/-- The operands of a tree are its items that are operands. -/
def Item.operand? {α : Type} : Item α → Option α
  | .operand a => some a
  | _ => none

theorem OpTree.operands_eq {α : Type} (t : OpTree α) :
    t.operands = t.items.filterMap Item.operand? := by
  induction t with
  | operand a => rfl
  | unary s t ih => exact ih
  | binary l s r ihl ihr =>
    rw [operands, items, List.filterMap_append, ihl, ihr]
    rfl

/-- The operands of a chain. -/
def Chain.operands {α : Type} (x : Chain α) : List α := x.head :: x.links.map (·.operand)

theorem filterMap_operand?_unary {α : Type} (signs : List UnarySign) :
    (signs.map (Item.unary (α := α))).filterMap Item.operand? = [] := by
  induction signs with
  | nil => rfl
  | cons s rest ih => exact ih

theorem Chain.operands_eq {α : Type} (x : Chain α) :
    x.operands = x.items.filterMap Item.operand? := by
  have hlinks : ∀ links : List (Link α),
      (links.flatMap Link.items).filterMap Item.operand? = links.map (·.operand) := by
    intro links
    induction links with
    | nil => rfl
    | cons l rest ih =>
      have hlink : l.items.filterMap Item.operand? = [l.operand] := by
        rw [Link.items, List.filterMap_cons_none rfl, List.filterMap_append,
          filterMap_operand?_unary]
        rfl
      rw [List.flatMap_cons, List.filterMap_append, hlink, ih]
      rfl
  have hhead : Item.operand? (.operand x.head) = some x.head := rfl
  rw [operands, items, List.filterMap_append, filterMap_operand?_unary,
    List.filterMap_cons_some hhead, hlinks, List.nil_append]

/-- Grouping keeps the operands. -/
theorem Chain.operands_toTree {α : Type} (x : Chain α) : x.toTree.operands = x.operands := by
  rw [OpTree.operands_eq, x.items_toTree, operands_eq]

/-! ## Places -/

/-- The sign without its place. -/
def UnarySign.unplaced (s : UnarySign) : UnarySign := { s with position := .unknown }

/-- The sign without its place. -/
def BinarySign.unplaced (s : BinarySign) : BinarySign := { s with position := .unknown }

/-- The tree without places. -/
def OpTree.unplaced : OpTree Expr → OpTree Expr
  | .operand e => .operand e.unplaced
  | .unary s t => .unary s.unplaced t.unplaced
  | .binary l s r => .binary l.unplaced s.unplaced r.unplaced

/-- The operator that waits without places. -/
def Pending.unplaced : Pending Expr → Pending Expr
  | .unary s => .unary s.unplaced
  | .binary l s => .binary l.unplaced s.unplaced

/-- The link without places. -/
def Link.unplaced (l : Link Expr) : Link Expr :=
  ⟨l.sign.unplaced, l.unary.map UnarySign.unplaced, l.operand.unplaced⟩

/-- The chain without places. -/
def Chain.unplaced (x : Chain Expr) : Chain Expr :=
  ⟨x.unary.map UnarySign.unplaced, x.head.unplaced, x.links.map Link.unplaced⟩

theorem OpTree.toExpr_unplaced (t : OpTree Expr) : t.unplaced.toExpr = t.toExpr.unplaced := by
  induction t with
  | operand e => rfl
  | unary s t ih =>
    rw [unplaced, toExpr, ih]
    rfl
  | binary l s r ihl ihr =>
    rw [unplaced, toExpr, ihl, ihr]
    rfl

theorem Pending.power_unplaced (p : Pending Expr) : p.unplaced.power = p.power := by
  cases p <;> rfl

theorem Pending.close_unplaced (p : Pending Expr) (t : OpTree Expr) :
    p.unplaced.close t.unplaced = (p.close t).unplaced := by
  cases p <;> rfl

namespace Chain

/-- The state of a pass without places. -/
def unplacedState (state : List (Pending Expr) × OpTree Expr) :
    List (Pending Expr) × OpTree Expr :=
  (state.1.map Pending.unplaced, state.2.unplaced)

theorem settle_unplaced (power : Nat) (stack : List (Pending Expr)) (t : OpTree Expr) :
    settle power (stack.map Pending.unplaced) t.unplaced =
      unplacedState (settle power stack t) := by
  induction stack generalizing t with
  | nil => rfl
  | cons p stack ih =>
    simp only [List.map_cons, settle, p.power_unplaced, p.close_unplaced, ih]
    split <;> rfl

theorem await_unplaced (signs : List UnarySign) (stack : List (Pending Expr)) :
    await (signs.map UnarySign.unplaced) (stack.map Pending.unplaced) =
      (await signs stack).map Pending.unplaced := by
  induction signs generalizing stack with
  | nil => rfl
  | cons s rest ih => exact ih (.unary s :: stack)

theorem extend_unplaced (state : List (Pending Expr) × OpTree Expr) (l : Link Expr) :
    extend (unplacedState state) l.unplaced = unplacedState (extend state l) := by
  have hsettle := settle_unplaced l.sign.op.power state.1 state.2
  unfold extend unplacedState
  dsimp only
  rw [show l.unplaced.sign.op.power = l.sign.op.power from rfl, hsettle]
  dsimp only [unplacedState]
  rw [← await_unplaced]
  rfl

theorem foldl_extend_unplaced (links : List (Link Expr))
    (state : List (Pending Expr) × OpTree Expr) :
    (links.map Link.unplaced).foldl extend (unplacedState state) =
      unplacedState (links.foldl extend state) := by
  induction links generalizing state with
  | nil => rfl
  | cons l rest ih => rw [List.map_cons, List.foldl_cons, extend_unplaced, ih, List.foldl_cons]

theorem foldl_close_unplaced (stack : List (Pending Expr)) (t : OpTree Expr) :
    (stack.map Pending.unplaced).foldl (fun t p => p.close t) t.unplaced =
      (stack.foldl (fun t p => p.close t) t).unplaced := by
  induction stack generalizing t with
  | nil => rfl
  | cons p stack ih => rw [List.map_cons, List.foldl_cons, p.close_unplaced, ih, List.foldl_cons]

/-- Grouping does not look at places. -/
theorem toTree_unplaced (x : Chain Expr) : x.unplaced.toTree = x.toTree.unplaced := by
  have hrun : x.unplaced.links.foldl extend (await x.unplaced.unary [], .operand x.unplaced.head) =
      unplacedState (x.links.foldl extend (await x.unary [], .operand x.head)) := by
    rw [← foldl_extend_unplaced, unplacedState, ← await_unplaced]
    rfl
  unfold toTree
  rw [hrun]
  exact foldl_close_unplaced _ _

end Chain

end TemplateEngine
