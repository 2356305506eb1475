import TemplateEngine.Syntax.Stmt

/-!
# What trees are made of

The expressions in an expression, and the expressions and the blocks in a statement, each one level
at a time or all the way down. A block in a statement is listed with what it is to the statement,
which is all that the names in it can depend on.
-/

namespace TemplateEngine

/-! ## Expressions -/

mutual

/-- The expression and all that are in it, in the order in which they begin. -/
def Expr.nodes : Expr → List Expr
  | .literal value p => [.literal value p]
  | .var ref => [.var ref]
  | .member target name p => .member target name p :: target.nodes
  | .index target key p => .index target key p :: (target.nodes ++ key.nodes)
  | .call callee args p => .call callee args p :: (callee.nodes ++ nodesOfItems args)
  | .list items p => .list items p :: nodesOfItems items
  | .map entries p => .map entries p :: nodesOfEntries entries
  | .unary op operand p => .unary op operand p :: operand.nodes
  | .binary op left right p => .binary op left right p :: (left.nodes ++ right.nodes)

/-- The expressions and all that are in them. -/
def nodesOfItems : List Expr → List Expr
  | [] => []
  | e :: rest => e.nodes ++ nodesOfItems rest

/-- The values of a map literal and all that are in them. -/
def nodesOfEntries : List (String × Expr) → List Expr
  | [] => []
  | (_, e) :: rest => e.nodes ++ nodesOfEntries rest

end

theorem nodesOfItems_eq (es : List Expr) : nodesOfItems es = es.flatMap Expr.nodes := by
  induction es with
  | nil => rfl
  | cons e es ih => rw [nodesOfItems, ih, List.flatMap_cons]

theorem nodesOfEntries_eq (xs : List (String × Expr)) :
    nodesOfEntries xs = xs.flatMap fun x => x.2.nodes := by
  induction xs with
  | nil => rfl
  | cons x xs ih => rw [nodesOfEntries, ih, List.flatMap_cons]

/-- What holds of every expression if it holds of one whenever it holds of those it is made of. -/
@[elab_as_elim]
theorem Expr.induction {P : Expr → Prop} (literal : ∀ value p, P (.literal value p))
    (var : ∀ ref, P (.var ref)) (member : ∀ target name p, P target → P (.member target name p))
    (index : ∀ target key p, P target → P key → P (.index target key p))
    (call : ∀ callee args p, P callee → (∀ e ∈ args, P e) → P (.call callee args p))
    (list : ∀ items p, (∀ e ∈ items, P e) → P (.list items p))
    (map : ∀ entries p, (∀ x ∈ entries, P x.2) → P (.map entries p))
    (unary : ∀ op operand p, P operand → P (.unary op operand p))
    (binary : ∀ op left right p, P left → P right → P (.binary op left right p)) :
    ∀ e, P e :=
  Expr.rec (motive_2 := fun es => ∀ e ∈ es, P e) (motive_3 := fun xs => ∀ x ∈ xs, P x.2)
    (motive_4 := fun x => P x.2) literal var member index call list map unary binary nofun
    (fun _ _ he hes => List.forall_mem_cons.2 ⟨he, hes⟩) nofun
    (fun _ _ hx hxs => List.forall_mem_cons.2 ⟨hx, hxs⟩) (fun _ _ he => he)

/-- The expression is a call. -/
def Expr.isCall : Expr → Bool
  | .call .. => true
  | _ => false

mutual

/-- The expression without the places of its nodes. -/
def Expr.unplaced : Expr → Expr
  | .literal value _ => .literal value .unknown
  | .var ref => .var { ref with position := .unknown }
  | .member target name _ => .member target.unplaced name .unknown
  | .index target key _ => .index target.unplaced key.unplaced .unknown
  | .call callee args _ => .call callee.unplaced (unplacedItems args) .unknown
  | .list items _ => .list (unplacedItems items) .unknown
  | .map entries _ => .map (unplacedEntries entries) .unknown
  | .unary op operand _ => .unary op operand.unplaced .unknown
  | .binary op left right _ => .binary op left.unplaced right.unplaced .unknown

/-- The expressions without the places of their nodes. -/
def unplacedItems : List Expr → List Expr
  | [] => []
  | e :: rest => e.unplaced :: unplacedItems rest

/-- The entries of a map literal without the places of the nodes in them. -/
def unplacedEntries : List (String × Expr) → List (String × Expr)
  | [] => []
  | (key, e) :: rest => (key, e.unplaced) :: unplacedEntries rest

end

theorem unplacedItems_eq (es : List Expr) : unplacedItems es = es.map Expr.unplaced := by
  induction es with
  | nil => rfl
  | cons e es ih => rw [unplacedItems, ih, List.map_cons]

theorem unplacedEntries_eq (xs : List (String × Expr)) :
    unplacedEntries xs = xs.map fun x => (x.1, x.2.unplaced) := by
  induction xs with
  | nil => rfl
  | cons x xs ih => rw [unplacedEntries, ih, List.map_cons]

/-! ## Statements -/

/-- What a block is to the statement that it belongs to. -/
inductive Surround
  /-- The body of a `for` over the variable. -/
  | loop (name : String)
  /-- The body of a `while`. -/
  | whileLoop
  /-- The body of a function. -/
  | function (params : List String) (body : Block)
  /-- Another block. -/
  | plain

/-- The block is the body of a function. -/
def Surround.isFunction : Surround → Bool
  | .function .. => true
  | _ => false

@[simp] theorem Surround.isFunction_loop (name : String) :
    (Surround.loop name).isFunction = false := rfl

@[simp] theorem Surround.isFunction_function (params : List String) (body : Block) :
    (Surround.function params body).isFunction = true := rfl

@[simp] theorem Surround.isFunction_whileLoop : Surround.whileLoop.isFunction = false := rfl

@[simp] theorem Surround.isFunction_plain : Surround.plain.isFunction = false := rfl

namespace Stmt

/-- The expressions of a statement itself. -/
def exprs : Stmt → List Expr
  | .output value => [value]
  | .assign target value => [target, value]
  | .assignGlobal _ value => [value]
  | .choose branches _ => branches.map (·.1)
  | .each _ items _ _ _ => [items]
  | .repeatWhile condition _ _ => [condition]
  | .leave value _ => value.toList
  | .capture target _ => [target]
  | .include path model _ => path :: model.toList
  | .text _ | .define .. | .stop _ | .next _ => []

/-- The blocks of a statement itself. -/
def blocks : Stmt → List (Surround × Block)
  | .choose branches otherwise =>
    branches.map (fun branch => (.plain, branch.2)) ++ otherwise.toList.map (.plain, ·)
  | .each ref _ body otherwise _ => (.loop ref.name, body) :: otherwise.toList.map (.plain, ·)
  | .repeatWhile _ body _ => [(.whileLoop, body)]
  | .define _ _ params body _ => [(.function params body, body)]
  | .capture _ body => [(.plain, body)]
  | .text _ | .output _ | .assign .. | .assignGlobal .. | .leave .. | .stop _ | .next _
  | .include .. => []

/-- The global name that a statement binds whatever surrounds it. -/
def globalTarget? : Stmt → Option VarRef
  | .assignGlobal ref _ => some ref
  | .define _ name _ _ _ => some name
  | _ => none

/-- The name that a statement assigns bare. -/
def bareTarget? : Stmt → Option String
  | .assign (.var ref) _ => some ref.name
  | .capture (.var ref) _ => some ref.name
  | _ => none

theorem sizeOf_of_mem_blocks {s : Stmt} {x : Surround × Block} (h : x ∈ s.blocks) :
    sizeOf x.2 < sizeOf s := by
  cases s with
  | choose branches otherwise =>
    simp only [blocks, List.mem_append, List.mem_map, Option.mem_toList] at h
    obtain ⟨branch, hbranch, rfl⟩ | ⟨b, hb, rfl⟩ := h
    · have hlt := List.sizeOf_lt_of_mem hbranch
      obtain ⟨c, body⟩ := branch
      simp only [Prod.mk.sizeOf_spec, choose.sizeOf_spec] at hlt ⊢
      omega
    · cases hb
      simp only [choose.sizeOf_spec, Option.some.sizeOf_spec]
      omega
  | each ref items body otherwise p =>
    simp only [blocks, List.mem_cons, List.mem_map, Option.mem_toList] at h
    obtain rfl | ⟨b, hb, rfl⟩ := h
    · simp only [each.sizeOf_spec]
      omega
    · cases hb
      simp only [each.sizeOf_spec, Option.some.sizeOf_spec]
      omega
  | repeatWhile _ body p | define _ _ _ body p | capture _ body =>
    cases List.mem_singleton.1 h
    simp only [repeatWhile.sizeOf_spec, define.sizeOf_spec, capture.sizeOf_spec]
    omega
  | _ => cases h

end Stmt

/-- What holds of a block if it holds of all blocks of its statements holds of every block. -/
theorem Block.induction {P : Block → Prop}
    (h : ∀ b : Block, (∀ s ∈ b, ∀ x ∈ s.blocks, P x.2) → P b) (b : Block) : P b :=
  h b fun s hs x hx =>
    have : sizeOf x.2 < sizeOf b :=
      Nat.lt_trans (Stmt.sizeOf_of_mem_blocks hx) (List.sizeOf_lt_of_mem hs)
    Block.induction h x.2
termination_by sizeOf b

/-- Somewhere in a block there is another with these surroundings, the innermost first. -/
inductive Within (root : Block) : List Surround → Block → Prop
  | root : Within root [] root
  | inner {path : List Surround} {b inside : Block} {s : Stmt} {around : Surround} :
    Within root path b → s ∈ b → (around, inside) ∈ s.blocks → Within root (around :: path) inside

/-- What is in a block that is in a block. -/
theorem Within.trans {root b c : Block} {inner outer : List Surround} (h : Within root outer b)
    (k : Within b inner c) : Within root (inner ++ outer) c := by
  induction k with
  | root => exact h
  | inner _ hs hx ih => exact .inner ih hs hx

/-! ## Texts -/

mutual

/-- The texts in a statement in the order of writing. -/
def Stmt.texts : Stmt → List String
  | .text content => [content]
  | .choose branches otherwise =>
    textsOfBranches branches ++
      match otherwise with
      | none => []
      | some block => textsOfBlock block
  | .each _ _ body otherwise _ =>
    textsOfBlock body ++
      match otherwise with
      | none => []
      | some block => textsOfBlock block
  | .repeatWhile _ body _ => textsOfBlock body
  | .define _ _ _ body _ => textsOfBlock body
  | .capture _ body => textsOfBlock body
  | .output _ | .assign .. | .assignGlobal .. | .leave .. | .stop _ | .next _ | .include .. => []

/-- The texts in a block in the order of writing. -/
def textsOfBlock : List Stmt → List String
  | [] => []
  | s :: rest => s.texts ++ textsOfBlock rest

/-- The texts in the bodies of branches in the order of writing. -/
def textsOfBranches : List (Expr × List Stmt) → List String
  | [] => []
  | (_, body) :: rest => textsOfBlock body ++ textsOfBranches rest

end

end TemplateEngine
