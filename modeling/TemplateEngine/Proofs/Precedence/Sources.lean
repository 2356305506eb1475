import TemplateEngine.Proofs.Precedence.Depth
import TemplateEngine.Proofs.Precedence.Levels
import TemplateEngine.Proofs.Spelling.Tags

/-!
# Precedence in sources

Whatever is read as an expression is a tree of operators over operands. Its operands and operators
stand in the source in the order in which the tree lists them (`ItemsAt`), an operand that is
itself an operation stands in parentheses, and the tree is graded (`operators_group_by_level`). The
expressions inside operands are read in the same way, so the same holds of them.
-/

namespace TemplateEngine

open Scanner

/-! ## Items -/

/-- How a unary operator is written. -/
def UnaryOp.part : UnaryOp → Part
  | .not => .word "not"
  | .neg => .sign "-"

/-- How a binary operator is written. -/
def BinaryOp.part (op : BinaryOp) : Part :=
  match op with
  | .or | .and => .word op.symbol
  | _ => .sign op.symbol

/-- The expression is an operator with its operands. -/
def Expr.isOperation : Expr → Bool
  | .unary .. | .binary .. => true
  | _ => false

/-- Between two cursors is nothing but a gap, if anything. -/
def Cursor.Gap (c d : Cursor) : Prop := ∃ gap : List Char, gap.all isGap = true ∧ c.Behind gap d

/-- The item stands between two cursors. An operand that is an operation stands in parentheses. -/
def Item.At : Item Expr → Cursor → Cursor → Prop
  | .unary s, c, d => s.position = c.position ∧ s.op.part.At c d
  | .binary s, c, d => s.position = c.position ∧ s.op.part.At c d
  | .operand e, c, d => (TemplateEngine.operand expression).Reads c e d ∧
      (e.isOperation = true → Written [.sign "(", .expr e, .sign ")"] c d)

/-- Between two cursors stand the items, with gaps before, between and behind them. -/
inductive ItemsAt : List (Item Expr) → Cursor → Cursor → Prop
  | nil {c d : Cursor} : c.Gap d → ItemsAt [] c d
  | cons {item : Item Expr} {items : List (Item Expr)} {b c d e : Cursor} : b.Gap c →
    item.At c d → ItemsAt items d e → ItemsAt (item :: items) b e

theorem Cursor.Gap.refl (c : Cursor) : c.Gap c := ⟨[], rfl, .refl c⟩

theorem Cursor.Gap.trans {b c d : Cursor} (h : b.Gap c) (k : c.Gap d) : b.Gap d := by
  obtain ⟨s, hs, hbc⟩ := h
  obtain ⟨t, ht, hcd⟩ := k
  exact ⟨s ++ t, by rw [List.all_append, hs, ht]; rfl, hbc.trans hcd⟩

namespace ItemsAt

variable {item : Item Expr} {xs ys : List (Item Expr)} {b c d : Cursor}

theorem one (h : item.At c d) : ItemsAt [item] c d := .cons (.refl c) h (.nil (.refl d))

theorem gap (h : b.Gap c) (k : ItemsAt xs c d) : ItemsAt xs b d := by
  cases k with
  | nil hgap => exact .nil (h.trans hgap)
  | cons hgap hitem hrest => exact .cons (h.trans hgap) hitem hrest

theorem append (h : ItemsAt xs b c) (k : ItemsAt ys c d) : ItemsAt (xs ++ ys) b d := by
  induction h with
  | nil hgap => exact .gap hgap k
  | cons hgap hitem _ ih => exact .cons hgap hitem (ih k)

end ItemsAt

/-! ## Repetitions -/

namespace Scanner

variable {α : Type} {p : Scanner α} {c d : Cursor} {xs : List α}

/-- The scanner reads the values one behind the other, with gaps between. -/
inductive Runs (p : Scanner α) : List α → Cursor → Cursor → Prop
  | nil (c : Cursor) : Runs p [] c c
  | cons {x : α} {xs : List α} {b c d e : Cursor} : b.Gap c → p.Reads c x d → Runs p xs d e →
    Runs p (x :: xs) b e

theorem Reads.runs_of_further {room : List Char} (h : (further p room).Reads c xs d) :
    Runs p xs c d := by
  induction room generalizing c xs with
  | nil =>
    cases h
    exact .nil _
  | cons _ room ih =>
    obtain ⟨x, e, hx, hmore⟩ := reads_bind.1 h
    obtain ⟨a, rfl, ha⟩ | ⟨rfl, rfl⟩ := hx.of_optional
    · obtain ⟨_, b, hgap, ha⟩ := reads_bind.1 ha
      obtain ⟨rest, e', hrest, hpure⟩ := reads_bind.1 hmore
      cases hpure
      exact .cons (behind_of_blanks hgap) ha (ih hrest)
    · cases hmore
      exact .nil _

/-- What is read as many values is read one by one. -/
theorem Reads.runs_of_many (h : (many p).Reads c xs d) : Runs p xs c d := by
  obtain ⟨x, e, hx, hmore⟩ := reads_bind.1 h
  obtain ⟨a, rfl, ha⟩ | ⟨rfl, rfl⟩ := hx.of_optional
  · obtain ⟨rest, e', hrest, hpure⟩ := reads_bind.1 hmore
    cases hpure
    exact .cons (.refl c) ha hrest.runs_of_further
  · cases hmore
    exact .nil _

/-- Where every value is written in its items, many values are. -/
theorem Runs.itemsAt (items : α → List (Item Expr)) (h : Runs p xs c d)
    (hp : ∀ ⦃c x d⦄, p.Reads c x d → ItemsAt (items x) c d) :
    ItemsAt (xs.flatMap items) c d := by
  induction h with
  | nil c => exact .nil (.refl c)
  | cons hgap hx _ ih => exact .gap hgap ((hp hx).append ih)

end Scanner

/-! ## Operators -/

section

variable {α : Type} {part : α → Part} {op : α} {text : String}

/-- Whatever the scanner reads is written as one part. -/
def Scanner.Marks (part : α → Part) (p : Scanner α) : Prop :=
  ∀ ⦃c : Cursor⦄ ⦃a : α⦄ ⦃d : Cursor⦄, p.Reads c a d → (part a).At c d

theorem marks_sign (h : part op = .sign text) : (sign op text).Marks part := by
  intro c a d hreads
  obtain ⟨_, e, htext, hpure⟩ := reads_bind.1 (reads_rule.1 hreads)
  cases hpure
  rw [h]
  exact behind_of_exactly htext

theorem marks_wordSign (h : part op = .word text) : (wordSign op text).Marks part := by
  intro c a d hreads
  obtain ⟨w, e, hword, hpure⟩ := reads_bind.1 (reads_rule.1 hreads)
  cases hpure
  obtain ⟨hbehind, hwanted, hend⟩ := behind_of_wordThat hword
  rw [h, ← of_decide_eq_true hwanted]
  exact ⟨hbehind, hend⟩

theorem marks_remSign : remSign.Marks BinaryOp.part := by
  intro c a d hreads
  have h := reads_rule.1 hreads
  unfold Reads at h
  dsimp only at h
  split at h
  · cases h
  · obtain ⟨_, e, htext, hpure⟩ := reads_bind.1 h
    cases hpure
    exact behind_of_exactly htext

theorem Scanner.Marks.firstOf {ps : List (Scanner α)} (h : ∀ p ∈ ps, p.Marks part) :
    (firstOf ps).Marks part := by
  intro c a d hreads
  obtain ⟨p, hp, hreads⟩ := hreads.of_firstOf
  exact h p hp hreads

end

theorem at_of_unarySign {c d : Cursor} {s : UnarySign} (h : unarySign.Reads c s d) :
    (Item.unary s).At c d := by
  have hmarks : (firstOf [wordSign .not "not", sign .neg "-"]).Marks UnaryOp.part := by
    refine .firstOf ?_
    simp only [List.forall_mem_cons, List.not_mem_nil, false_imp_iff, implies_true, and_true]
    exact ⟨marks_wordSign rfl, marks_sign rfl⟩
  obtain ⟨p, _, hhere, h⟩ := reads_bind.1 h
  cases hhere
  obtain ⟨op, e, hop, hpure⟩ := reads_bind.1 h
  cases hpure
  exact ⟨rfl, hmarks hop⟩

theorem at_of_binarySign {c d : Cursor} {s : BinarySign} (h : binarySign.Reads c s d) :
    (Item.binary s).At c d := by
  have hmarks : (firstOf [
      wordSign .or "or", wordSign .and "and",
      sign .eq "==", sign .ne "!=", sign .le "<=", sign .ge ">=", sign .lt "<", sign .gt ">",
      sign .concat "~", sign .add "+", sign .sub "-", sign .mul "*", sign .div "/",
      remSign]).Marks BinaryOp.part := by
    refine .firstOf ?_
    simp only [List.forall_mem_cons, List.not_mem_nil, false_imp_iff, implies_true, and_true]
    exact ⟨marks_wordSign rfl, marks_wordSign rfl, marks_sign rfl, marks_sign rfl, marks_sign rfl,
      marks_sign rfl, marks_sign rfl, marks_sign rfl, marks_sign rfl, marks_sign rfl,
      marks_sign rfl, marks_sign rfl, marks_sign rfl, marks_remSign⟩
  obtain ⟨p, _, hhere, h⟩ := reads_bind.1 h
  cases hhere
  obtain ⟨op, e, hop, hpure⟩ := reads_bind.1 h
  cases hpure
  exact ⟨rfl, hmarks hop⟩

/-! ## Operands -/

/-- What is reached from an operand is no operation. -/
theorem isOperation_of_accessor {deeper : Scanner Expr} {c d : Cursor} {access : Expr → Expr}
    (h : (accessor deeper).Reads c access d) (e : Expr) : (access e).isOperation = false := by
  obtain ⟨p, hp, h⟩ := h.of_firstOf
  simp only [List.mem_cons, List.not_mem_nil, or_false] at hp
  obtain rfl | rfl | rfl := hp
  all_goals
    obtain ⟨_, _, -, h⟩ := reads_bind.1 (reads_rule.1 h)
    obtain ⟨_, _, -, h⟩ := reads_bind.1 h
    obtain ⟨_, _, -, h⟩ := reads_bind.1 h
    obtain ⟨_, _, -, h⟩ := reads_bind.1 h
  · cases h
    rfl
  · obtain ⟨_, _, -, h⟩ := reads_bind.1 h
    obtain ⟨_, _, -, h⟩ := reads_bind.1 h
    cases h
    rfl
  · obtain ⟨_, _, -, h⟩ := reads_bind.1 h
    obtain ⟨_, _, -, h⟩ := reads_bind.1 h
    cases h
    rfl

theorem isOperation_foldl {deeper : Scanner Expr} {c d : Cursor} {accessors : List (Expr → Expr)}
    (h : Runs (accessor deeper) accessors c d) {first : Expr} (hfirst : first.isOperation = false) :
    (accessors.foldl (fun e access => access e) first).isOperation = false := by
  induction h generalizing first with
  | nil => exact hfirst
  | cons _ haccess _ ih => exact ih (isOperation_of_accessor haccess first)

/-- A primary that is an operation is a group. -/
theorem written_of_primary {c d : Cursor} {e : Expr} (h : (primary expression).Reads c e d)
    (he : e.isOperation = true) : Written [.sign "(", .expr e, .sign ")"] c d := by
  obtain ⟨_, _, hhere, h⟩ := reads_bind.1 h
  cases hhere
  obtain ⟨p, hp, h⟩ := h.of_firstOf
  simp only [List.mem_cons, List.not_mem_nil, or_false] at hp
  obtain rfl | rfl | rfl | rfl | rfl := hp
  · obtain ⟨_, _, -, hpure⟩ := reads_bind.1 h
    cases hpure
    cases he
  · obtain ⟨_, _, -, h⟩ := reads_bind.1 (reads_rule.1 h)
    obtain ⟨_, _, -, h⟩ := reads_bind.1 h
    obtain ⟨_, _, -, h⟩ := reads_bind.1 h
    obtain ⟨_, _, -, h⟩ := reads_bind.1 h
    obtain ⟨_, _, -, h⟩ := reads_bind.1 h
    obtain ⟨_, _, -, hpure⟩ := reads_bind.1 h
    cases hpure
    cases he
  · obtain ⟨_, _, -, h⟩ := reads_bind.1 (reads_rule.1 h)
    obtain ⟨_, _, -, h⟩ := reads_bind.1 h
    obtain ⟨_, _, -, h⟩ := reads_bind.1 h
    obtain ⟨_, _, -, h⟩ := reads_bind.1 h
    obtain ⟨_, _, -, h⟩ := reads_bind.1 h
    obtain ⟨_, _, -, hpure⟩ := reads_bind.1 h
    cases hpure
    cases he
  · obtain ⟨_, _, -, hpure⟩ := reads_bind.1 h
    cases hpure
    cases he
  · have hgroup : (grouped expression).Spells fun e => [.sign "(", .expr e, .sign ")"] :=
      Writes.spelled (spells_exactly "(") fun _ => .gap <|
        .spelled spells_expression fun e => .gap <|
        .spelled (spells_exactly ")") fun _ => .pure rfl
    obtain ⟨_, rfl, hwritten⟩ := hgroup h
    exact hwritten

theorem at_of_operand {c d : Cursor} {e : Expr} (h : (operand expression).Reads c e d) :
    (Item.operand e).At c d := by
  refine ⟨h, fun he => ?_⟩
  obtain ⟨first, b, hfirst, h⟩ := reads_bind.1 (reads_rule.1 h)
  obtain ⟨_, b', hgap, h⟩ := reads_bind.1 h
  obtain ⟨accessors, d', haccessors, hpure⟩ := reads_bind.1 h
  cases hpure
  have hruns := haccessors.runs_of_many
  cases hop : first.isOperation with
  | false =>
    rw [isOperation_foldl hruns hop] at he
    cases he
  | true =>
    cases hruns with
    | nil =>
      obtain ⟨gap, hall, hbehind⟩ := behind_of_blanks hgap
      have happend := (written_of_primary hfirst hop).append (.nil hall hbehind)
      rwa [List.append_nil] at happend
    | cons _ haccess hrest =>
      have hfalse := isOperation_foldl hrest (isOperation_of_accessor haccess first)
      rw [List.foldl_cons, hfalse] at he
      cases he

/-! ## Chains -/

theorem itemsAt_of_unarySigns {c d : Cursor} {signs : List UnarySign}
    (h : (many unarySign).Reads c signs d) : ItemsAt (signs.map .unary) c d := by
  have hitems := h.runs_of_many.itemsAt (fun s => [.unary s])
    fun _ _ _ hs => .one (at_of_unarySign hs)
  rwa [List.map_eq_flatMap]

theorem itemsAt_of_link {c d : Cursor} {l : Link Expr} (h : (link expression).Reads c l d) :
    ItemsAt l.items c d := by
  obtain ⟨op, _, hop, h⟩ := reads_bind.1 h
  obtain ⟨_, _, hgap, h⟩ := reads_bind.1 h
  obtain ⟨unary, _, hunary, h⟩ := reads_bind.1 h
  obtain ⟨_, _, hgap', h⟩ := reads_bind.1 h
  obtain ⟨right, _, hright, hpure⟩ := reads_bind.1 h
  cases hpure
  have hoperand : ItemsAt [.operand right] _ d := .one (at_of_operand hright)
  have hbehind := (itemsAt_of_unarySigns hunary).append (.gap (behind_of_blanks hgap') hoperand)
  exact .cons (.refl c) (at_of_binarySign hop) (.gap (behind_of_blanks hgap) hbehind)

theorem itemsAt_of_chain {c d : Cursor} {x : Chain Expr} (h : (chain expression).Reads c x d) :
    ItemsAt x.items c d := by
  obtain ⟨unary, _, hunary, h⟩ := reads_bind.1 (reads_rule.1 h)
  obtain ⟨_, _, hgap, h⟩ := reads_bind.1 h
  obtain ⟨head, _, hhead, h⟩ := reads_bind.1 h
  obtain ⟨_, _, hgap', h⟩ := reads_bind.1 h
  obtain ⟨links, _, hlinks, hpure⟩ := reads_bind.1 h
  cases hpure
  have hrest := hlinks.runs_of_many.itemsAt Link.items fun _ _ _ hl => itemsAt_of_link hl
  have hhead : ItemsAt (.operand head :: links.flatMap Link.items) _ d :=
    .cons (behind_of_blanks hgap) (at_of_operand hhead) (.gap (behind_of_blanks hgap') hrest)
  exact (itemsAt_of_unarySigns hunary).append hhead

/-! ## Expressions -/

/-- Whatever is read as an expression is a tree of operators over operands, and the items of the
tree stand in the source in their order. The tree is graded: the right operand of an infix operator is
no infix operation of its level or a looser one, no operator on the right spine of its left operand
is looser, and the operand of a prefix operator is no infix operation of a looser level. Only in
parentheses an operand is an operation, so everything else is in the tree. The expressions in an
operand are read by the same scanner. -/
theorem operators_group_by_level {c d : Cursor} {e : Expr} (h : expression.Reads c e d) :
    ∃ t : OpTree Expr, t.toExpr = e ∧ t.Graded ∧ ItemsAt t.items c d := by
  rw [expression_eq] at h
  obtain ⟨x, d', hx, hpure⟩ := reads_bind.1 h
  cases hpure
  refine ⟨x.toTree, rfl, x.graded_toTree, ?_⟩
  rw [x.items_toTree]
  exact itemsAt_of_chain hx

/-- A product of a variable and a negation of a sum. -/
def Expr.isProductWithNot : Expr → Bool
  | .binary .mul (.var _) (.unary .not (.binary .add (.var _) (.var _) _) _) _ => true
  | _ => false

/-- Behind a tight operator `not` takes all that is tighter than itself. -/
theorem not_takes_the_sum : ∃ e d, expression.Reads (.start "a * not b + c".toList) e d ∧
    e.isProductWithNot = true ∧
    ∃ t : OpTree Expr, t.toExpr = e ∧ t.Graded ∧
      ItemsAt t.items (.start "a * not b + c".toList) d := by
  have hread : ((expression (.start "a * not b + c".toList)).result.any
      fun r => r.1.isProductWithNot) = true := by decide +kernel
  cases h : (expression (.start "a * not b + c".toList)).result with
  | none =>
    rw [h] at hread
    cases hread
  | some r =>
    rw [h] at hread
    exact ⟨r.1, r.2, h, hread, operators_group_by_level h⟩

end TemplateEngine
