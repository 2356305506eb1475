import TemplateEngine.Syntax.Nodes

/-!
# Where statements stand

A statement stands where its tag does, if it keeps that place, where the names stand that it binds,
and where the nodes of its expressions do (`Stmt.positions`). The statements in its blocks stand
where they do themselves; a property of all of them is one of the block (`Block.Everywhere`).
-/

namespace TemplateEngine

/-! ## Expressions -/

/-- Every node of the expression stands at one of the places. -/
def Expr.Stands (A : Position → Prop) (e : Expr) : Prop := ∀ x ∈ e.nodes, A x.position

namespace Expr

theorem mem_nodes (e : Expr) : e ∈ e.nodes := by
  cases e <;> exact List.mem_cons_self

variable {A : Position → Prop}

theorem Stands.position {e : Expr} (h : e.Stands A) : A e.position := h e e.mem_nodes

/-- The nodes of expressions stand where the expressions do. -/
theorem stands_nodesOfItems {es : List Expr} :
    (∀ x ∈ nodesOfItems es, A x.position) ↔ ∀ e ∈ es, e.Stands A := by
  rw [nodesOfItems_eq]
  exact List.forall_mem_flatMap

theorem stands_nodesOfEntries {xs : List (String × Expr)} :
    (∀ x ∈ nodesOfEntries xs, A x.position) ↔ ∀ x ∈ xs, x.2.Stands A := by
  rw [nodesOfEntries_eq]
  exact List.forall_mem_flatMap

variable {p : Position} {target key callee operand left right : Expr}

theorem stands_literal {l : Literal} : (literal l p).Stands A ↔ A p := List.forall_mem_singleton

theorem stands_var {ref : VarRef} : (var ref).Stands A ↔ A ref.position :=
  List.forall_mem_singleton

theorem stands_member {name : String} :
    (member target name p).Stands A ↔ A p ∧ target.Stands A := List.forall_mem_cons

theorem stands_index : (index target key p).Stands A ↔ A p ∧ target.Stands A ∧ key.Stands A :=
  List.forall_mem_cons.trans (and_congr_right' List.forall_mem_append)

theorem stands_call {args : List Expr} :
    (call callee args p).Stands A ↔ A p ∧ callee.Stands A ∧ ∀ e ∈ args, e.Stands A := by
  refine List.forall_mem_cons.trans (and_congr_right' ?_)
  exact List.forall_mem_append.trans (and_congr_right' stands_nodesOfItems)

theorem stands_list {items : List Expr} :
    (list items p).Stands A ↔ A p ∧ ∀ e ∈ items, e.Stands A :=
  List.forall_mem_cons.trans (and_congr_right' stands_nodesOfItems)

theorem stands_map {entries : List (String × Expr)} :
    (map entries p).Stands A ↔ A p ∧ ∀ x ∈ entries, x.2.Stands A :=
  List.forall_mem_cons.trans (and_congr_right' stands_nodesOfEntries)

theorem stands_unary {op : UnaryOp} : (unary op operand p).Stands A ↔ A p ∧ operand.Stands A :=
  List.forall_mem_cons

theorem stands_binary {op : BinaryOp} :
    (binary op left right p).Stands A ↔ A p ∧ left.Stands A ∧ right.Stands A :=
  List.forall_mem_cons.trans (and_congr_right' List.forall_mem_append)

end Expr

/-! ## Statements -/

namespace Stmt

/-- The place of the tag of the statement, if the statement keeps it. -/
def position? : Stmt → Option Position
  | .each _ _ _ _ p | .repeatWhile _ _ p | .define _ _ _ _ p | .leave _ p | .stop p | .next p
  | .include _ _ p => some p
  | .text _ | .output _ | .assign _ _ | .assignGlobal _ _ | .choose _ _ | .capture _ _ => none

/-- The names that the statement binds without an expression for them. -/
def bindings : Stmt → List VarRef
  | .assignGlobal ref _ | .each ref _ _ _ _ | .define _ ref _ _ _ => [ref]
  | .text _ | .output _ | .assign _ _ | .choose _ _ | .repeatWhile _ _ _ | .leave _ _ | .stop _
  | .next _ | .capture _ _ | .include _ _ _ => []

/-- Where the statement stands: its tag, the names that it binds, the nodes of its expressions. -/
def positions (s : Stmt) : List Position :=
  s.position?.toList ++ s.bindings.map VarRef.position ++
    s.exprs.flatMap fun e => e.nodes.map Expr.position

/-- The statement stands at such places only. -/
def Stands (A : Position → Prop) (s : Stmt) : Prop := ∀ p ∈ s.positions, A p

variable {A : Position → Prop} {s : Stmt}

theorem stands_iff : s.Stands A ↔ (∀ p ∈ s.position?, A p) ∧
    (∀ ref ∈ s.bindings, A ref.position) ∧ ∀ e ∈ s.exprs, e.Stands A := by
  simp only [Stands, positions, List.forall_mem_append, List.forall_mem_flatMap,
    List.forall_mem_map, Option.mem_toList, Option.mem_def, Expr.Stands, and_assoc]

namespace Stands

theorem position (h : s.Stands A) {p : Position} (hp : s.position? = some p) : A p :=
  (stands_iff.1 h).1 p hp

theorem binding (h : s.Stands A) {ref : VarRef} (href : ref ∈ s.bindings) : A ref.position :=
  (stands_iff.1 h).2.1 ref href

theorem expr (h : s.Stands A) {e : Expr} (he : e ∈ s.exprs) : e.Stands A :=
  (stands_iff.1 h).2.2 e he

end Stands

end Stmt

/-! ## Blocks -/

/-- Every statement in the block has the property, however deep it is in it. -/
def Block.Everywhere (S : Stmt → Prop) (b : Block) : Prop :=
  ∀ path inside, Within b path inside → ∀ s ∈ inside, S s

namespace Block

variable {S : Stmt → Prop} {b : Block}

theorem everywhere_iff : b.Everywhere S ↔ ∀ s ∈ b, S s ∧ ∀ x ∈ s.blocks, x.2.Everywhere S := by
  constructor
  · exact fun h s hs => ⟨h [] b .root s hs, fun x hx path inside hinside =>
      h _ inside ((Within.inner .root hs hx).trans hinside)⟩
  · intro h path inside hinside
    -- the statements around the place have the property in all their blocks
    suffices hall : ∀ s ∈ inside, S s ∧ ∀ x ∈ s.blocks, x.2.Everywhere S from
      fun s hs => (hall s hs).1
    induction hinside with
    | root => exact h
    | inner _ hs hx ih =>
      intro s' hs'
      have hblock := (ih _ hs).2 _ hx
      exact ⟨hblock [] _ .root s' hs', fun y hy path inside hinside =>
        hblock _ inside ((Within.inner .root hs' hy).trans hinside)⟩

theorem everywhere_cons {s : Stmt} {rest : Block} : Everywhere S (s :: rest) ↔
    (S s ∧ ∀ x ∈ s.blocks, x.2.Everywhere S) ∧ rest.Everywhere S := by
  rw [everywhere_iff, everywhere_iff, List.forall_mem_cons]

end Block

end TemplateEngine
