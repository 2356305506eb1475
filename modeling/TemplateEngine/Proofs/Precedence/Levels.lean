import TemplateEngine.Source.Precedence

/-!
# Levels of operators

Operators stand on levels, the loosest one first. In a graded tree nothing binds against the levels:
an operator on the right of an infix operator, or under a prefix operator, is tighter, and all
that could have taken the right end of a left operand away from it is at least as tight
(`OpTree.Graded`). Every chain is grouped to a graded tree (`Chain.graded_toTree`), and every
graded tree is what its chain is grouped to (`OpTree.toTree_chain`), so that a chain is the chain of
exactly one graded tree.
-/

namespace TemplateEngine

/-- An operator before or between operands. -/
inductive Operator
  | unary (op : UnaryOp)
  | binary (op : BinaryOp)
deriving DecidableEq

namespace Operator

/-- The levels of the operators, the loosest one first. -/
def levels : List (List Operator) := [
  [.binary .or],
  [.binary .and],
  [.unary .not],
  [.binary .eq, .binary .ne, .binary .lt, .binary .gt, .binary .le, .binary .ge],
  [.binary .concat],
  [.binary .add, .binary .sub],
  [.binary .mul, .binary .div, .binary .rem],
  [.unary .neg]]

/-- The level on which an operator stands. -/
def level (op : Operator) : Nat := levels.findIdx (·.contains op)

/-- No operator of one kind stands on the level of one of the other kind. -/
theorem level_unary_ne_binary (u : UnaryOp) (b : BinaryOp) :
    (Operator.unary u).level ≠ (Operator.binary b).level := by
  cases u <;> cases b <;> decide

end Operator

/-- The level of a unary operator where it is written. -/
def UnarySign.level (s : UnarySign) : Nat := (Operator.unary s.op).level

/-- The level of a binary operator where it is written. -/
def BinarySign.level (s : BinarySign) : Nat := (Operator.binary s.op).level

theorem UnarySign.power_eq (s : UnarySign) : s.op.power = s.level + 1 := by
  obtain ⟨op, p⟩ := s
  cases op <;> rfl

theorem BinarySign.power_eq (s : BinarySign) : s.op.power = s.level + 1 := by
  obtain ⟨op, p⟩ := s
  cases op <;> rfl

variable {α : Type}

/-! ## Trees -/

namespace OpTree

/-- The level of the infix operator at the root. -/
def infixLevel? : OpTree α → Option Nat
  | .binary _ s _ => some s.level
  | _ => none

/-- The levels of the operators from the root down along the right operands. -/
def spineLevels : OpTree α → List Nat
  | .operand _ => []
  | .unary s t => s.level :: t.spineLevels
  | .binary _ s r => s.level :: r.spineLevels

/-- The right operand of an infix operator is no infix operation of its level or a looser one. No
operator on the right spine of its left operand is looser, and the operand of a prefix operator
is no infix operation of a looser level. -/
def Graded : OpTree α → Prop
  | .operand _ => True
  | .unary s t => (∀ l ∈ t.infixLevel?, s.level ≤ l) ∧ t.Graded
  | .binary l s r => (∀ p ∈ r.infixLevel?, s.level < p) ∧ (∀ p ∈ l.spineLevels, s.level ≤ p) ∧
      l.Graded ∧ r.Graded

/-- The operands in the order of writing. -/
def operands : OpTree α → List α
  | .operand a => [a]
  | .unary _ t => t.operands
  | .binary l _ r => l.operands ++ r.operands

/-- The operands and operators as they are written. -/
def chain : OpTree α → Chain α
  | .operand a => ⟨[], a, []⟩
  | .unary s t => { t.chain with unary := s :: t.chain.unary }
  | .binary l s r =>
    { l.chain with links := l.chain.links ++ ⟨s, r.chain.unary, r.chain.head⟩ :: r.chain.links }

/-- An infix operator at the root is on the right spine. -/
theorem mem_spineLevels_of_infixLevel? {t : OpTree α} {p : Nat} (h : p ∈ t.infixLevel?) :
    p ∈ t.spineLevels := by
  cases t with
  | operand a => cases h
  | unary s t => cases h
  | binary l s r =>
    cases h
    exact List.mem_cons_self

end OpTree

/-! ## Stacks -/

namespace Pending

/-- The level of the waiting operator. -/
def level : Pending α → Nat
  | .unary s => s.level
  | .binary _ s => s.level

theorem power_eq (p : Pending α) : p.power = p.level + 1 := by
  cases p with
  | unary s => exact s.power_eq
  | binary l s => exact s.power_eq

end Pending

/-- On top of the stack an infix operator of the level can go on. -/
def Clears (stack : List (Pending α)) (level : Nat) : Prop := ∀ p ∈ stack.head?, p.level < level

/-- The left sides that lie on the stack are graded, and every infix operator waits because it is
tighter than the operator below it. -/
inductive Stacked : List (Pending α) → Prop
  | nil : Stacked []
  | unary {s : UnarySign} {stack : List (Pending α)} : Stacked stack → Stacked (.unary s :: stack)
  | binary {l : OpTree α} {s : BinarySign} {stack : List (Pending α)} : Stacked stack →
    l.Graded → (∀ p ∈ l.spineLevels, s.level ≤ p) → Clears stack s.level →
      Stacked (.binary l s :: stack)

/-- The tree can be the right side of what lies on top of the stack. -/
structure Fits (stack : List (Pending α)) (t : OpTree α) : Prop where
  graded : t.Graded
  clears : ∀ l ∈ t.infixLevel?, Clears stack l

theorem fits_operand (stack : List (Pending α)) (a : α) : Fits stack (.operand a) where
  graded := trivial
  clears := nofun

/-- The top of the stack with its right side fits what lies below. -/
theorem Fits.close {p : Pending α} {stack : List (Pending α)} {t : OpTree α}
    (h : Fits (p :: stack) t) (hstack : Stacked (p :: stack)) : Fits stack (p.close t) := by
  have hclears : ∀ l ∈ t.infixLevel?, p.level < l := fun l hl => h.clears l hl p rfl
  cases hstack with
  | unary hrest =>
    refine ⟨⟨fun l hl => ?_, h.graded⟩, nofun⟩
    exact Nat.le_of_lt (hclears l hl)
  | binary hrest hleft hspine hbelow =>
    refine ⟨⟨hclears, hspine, hleft, h.graded⟩, ?_⟩
    rintro _ ⟨⟩
    exact hbelow

theorem Stacked.tail {p : Pending α} {stack : List (Pending α)} (h : Stacked (p :: stack)) :
    Stacked stack := by
  cases h with
  | unary hrest => exact hrest
  | binary hrest _ _ _ => exact hrest

/-! ## Grouping -/

namespace Chain

/-- Settling closes all that is at least as tight, and what is left on top is looser. -/
theorem fits_settle (level : Nat) {stack : List (Pending α)} {t : OpTree α}
    (hstack : Stacked stack) (h : Fits stack t) (hspine : ∀ p ∈ t.spineLevels, level ≤ p) :
    let r := settle (level + 1) stack t
    Stacked r.1 ∧ Clears r.1 level ∧ Fits r.1 r.2 ∧ ∀ p ∈ r.2.spineLevels, level ≤ p := by
  induction stack generalizing t with
  | nil => exact ⟨.nil, nofun, h, hspine⟩
  | cons p stack ih =>
    simp only [settle, p.power_eq, Nat.add_le_add_iff_right]
    split
    · next htight =>
      refine ih hstack.tail (h.close hstack) ?_
      cases p with
      | unary s => exact List.forall_mem_cons.2 ⟨htight, hspine⟩
      | binary l s => exact List.forall_mem_cons.2 ⟨htight, hspine⟩
    · next hloose =>
      refine ⟨hstack, ?_, h, hspine⟩
      rintro _ ⟨⟩
      exact Nat.lt_of_not_le hloose

theorem stacked_await (signs : List UnarySign) {stack : List (Pending α)} (h : Stacked stack) :
    Stacked (await signs stack) := by
  induction signs generalizing stack with
  | nil => exact h
  | cons s rest ih => exact ih (.unary h)

/-- One more operator and the operand behind it keep the stack in order. -/
theorem stacked_extend {stack : List (Pending α)} (a : α) (h : Stacked stack) (link : Link α) :
    ∃ stack', extend (stack, .operand a) link = (stack', .operand link.operand) ∧
      Stacked stack' := by
  obtain ⟨hstack, hclears, hfits, hspine⟩ :=
    fits_settle link.sign.level h (fits_operand stack a) nofun
  rw [← link.sign.power_eq] at hstack hclears hfits hspine
  exact ⟨_, rfl, stacked_await _ (.binary hstack hfits.graded hspine hclears)⟩

theorem stacked_foldl_extend (links : List (Link α)) {stack : List (Pending α)} (a : α)
    (h : Stacked stack) :
    ∃ stack' b, links.foldl extend (stack, .operand a) = (stack', .operand b) ∧
      Stacked stack' := by
  induction links generalizing stack a with
  | nil => exact ⟨stack, a, rfl, h⟩
  | cons link rest ih =>
    obtain ⟨stack', hextend, hstack'⟩ := stacked_extend a h link
    obtain ⟨stack'', b, hrest, hstack''⟩ := ih link.operand hstack'
    exact ⟨stack'', b, by rw [List.foldl_cons, hextend, hrest], hstack''⟩

theorem graded_foldl_close {stack : List (Pending α)} {t : OpTree α} (hstack : Stacked stack)
    (h : Fits stack t) : (stack.foldl (fun t p => p.close t) t).Graded := by
  induction stack generalizing t with
  | nil => exact h.graded
  | cons p stack ih => exact ih hstack.tail (h.close hstack)

/-- Every chain is grouped by the levels of its operators. -/
theorem graded_toTree (chain : Chain α) : chain.toTree.Graded := by
  obtain ⟨stack, a, hrun, hstack⟩ :=
    stacked_foldl_extend chain.links chain.head (stacked_await chain.unary .nil)
  unfold toTree
  rw [hrun]
  exact graded_foldl_close hstack (fits_operand stack a)

end Chain

/-! ## Graded trees come back -/

/-- The operators that wait for the right end of a tree. -/
def OpTree.spine : OpTree α → List (Pending α)
  | .operand _ => []
  | .unary s t => t.spine ++ [.unary s]
  | .binary l s r => r.spine ++ [.binary l s]

/-- The operand at the right end of a tree. -/
def OpTree.last : OpTree α → α
  | .operand a => a
  | .unary _ t => t.last
  | .binary _ _ r => r.last

namespace Chain

/-- Groups as far as the chain goes, on top of a stack. -/
def run (stack : List (Pending α)) (chain : Chain α) : List (Pending α) × OpTree α :=
  chain.links.foldl extend (await chain.unary stack, .operand chain.head)

end Chain

open Chain

theorem OpTree.foldl_close_spine (t : OpTree α) (stack : List (Pending α)) :
    (t.spine ++ stack).foldl (fun t p => p.close t) (.operand t.last) =
      stack.foldl (fun t p => p.close t) t := by
  induction t generalizing stack with
  | operand a => rfl
  | unary s t ih =>
    rw [spine, last, List.append_assoc, ih]
    rfl
  | binary l s r _ ih =>
    rw [spine, last, List.append_assoc, ih]
    rfl

/-- Settling for an operator that is no tighter than the right spine of a tree closes the tree. -/
theorem OpTree.settle_spine (t : OpTree α) {level : Nat} {stack : List (Pending α)}
    (h : ∀ p ∈ t.spineLevels, level ≤ p) :
    settle (level + 1) (t.spine ++ stack) (.operand t.last) = settle (level + 1) stack t := by
  induction t generalizing stack with
  | operand a => rfl
  | unary s t ih =>
    obtain ⟨hs, ht⟩ := List.forall_mem_cons.1 h
    have hpower : level + 1 ≤ (Pending.unary s : Pending α).power := by
      rw [Pending.power_eq]
      exact Nat.succ_le_succ hs
    rw [spine, last, List.append_assoc, ih ht, List.singleton_append, settle, if_pos hpower]
    rfl
  | binary l s r _ ih =>
    obtain ⟨hs, hr⟩ := List.forall_mem_cons.1 h
    have hpower : level + 1 ≤ (Pending.binary l s).power := by
      rw [Pending.power_eq]
      exact Nat.succ_le_succ hs
    rw [spine, last, List.append_assoc, ih hr, List.singleton_append, settle, if_pos hpower]
    rfl

/-- Nothing is settled where an operator clears the stack. -/
theorem Clears.settle_eq {level : Nat} {stack : List (Pending α)} (h : Clears stack level)
    (t : OpTree α) : settle (level + 1) stack t = (stack, t) := by
  cases stack with
  | nil => rfl
  | cons p stack =>
    have hlt : p.level < level := h p rfl
    rw [settle, if_neg]
    rw [p.power_eq]
    omega

/-- The chain of a graded tree is grouped to the right spine of the tree. -/
theorem OpTree.run_chain {t : OpTree α} {stack : List (Pending α)} (h : Fits stack t) :
    run stack t.chain = (t.spine ++ stack, .operand t.last) := by
  induction t generalizing stack with
  | operand a => rfl
  | unary s t ih =>
    have hfits : Fits (.unary s :: stack) t := by
      refine ⟨h.graded.2, fun l hl => ?_⟩
      rintro _ ⟨⟩
      cases t with
      | operand a => cases hl
      | unary s' t => cases hl
      | binary l s' r =>
        cases hl
        -- the levels differ, since the operators are of different kinds
        exact Nat.lt_of_le_of_ne (h.graded.1 _ rfl) (Operator.level_unary_ne_binary _ _)
    calc run stack (unary s t).chain
        = run (.unary s :: stack) t.chain := rfl
      _ = ((unary s t).spine ++ stack, .operand (unary s t).last) := by
        rw [ih hfits, spine, last, List.append_assoc, List.singleton_append]
  | binary l s r ihl ihr =>
    obtain ⟨hright, hspine, hl, hr⟩ := h.graded
    have hclears : Clears stack s.level := h.clears _ rfl
    have hleft : Fits stack l := by
      refine ⟨hl, fun p hp q hq => ?_⟩
      exact Nat.lt_of_lt_of_le (hclears q hq) (hspine p (mem_spineLevels_of_infixLevel? hp))
    have hright : Fits (.binary l s :: stack) r := by
      refine ⟨hr, fun p hp => ?_⟩
      rintro _ ⟨⟩
      exact hright p hp
    have hextend : extend (l.spine ++ stack, .operand l.last)
        ⟨s, r.chain.unary, r.chain.head⟩ =
          (await r.chain.unary (.binary l s :: stack), .operand r.chain.head) := by
      have hsettle : settle s.op.power (l.spine ++ stack) (.operand l.last) = (stack, l) := by
        rw [s.power_eq]
        exact (l.settle_spine hspine).trans (hclears.settle_eq l)
      simp only [extend, hsettle]
    calc run stack (binary l s r).chain
        = (⟨s, r.chain.unary, r.chain.head⟩ :: r.chain.links).foldl extend
            (run stack l.chain) := List.foldl_append
      _ = run (.binary l s :: stack) r.chain := by
        rw [ihl hleft, List.foldl_cons, hextend]
        rfl
      _ = ((binary l s r).spine ++ stack, .operand (binary l s r).last) := by
        rw [ihr hright, spine, last, List.append_assoc, List.singleton_append]

/-- A graded tree is what its operands and operators are grouped to. -/
theorem OpTree.toTree_chain {t : OpTree α} (h : t.Graded) : t.chain.toTree = t := by
  have hrun : run [] t.chain = (t.spine ++ [], .operand t.last) := run_chain ⟨h, fun _ _ => nofun⟩
  calc t.chain.toTree
      = (run [] t.chain).1.foldl (fun t p => p.close t) (run [] t.chain).2 := rfl
    _ = t := by
      rw [hrun]
      exact t.foldl_close_spine []

theorem OpTree.items_chain (t : OpTree α) : t.chain.items = t.items := by
  induction t with
  | operand a => rfl
  | unary s t ih =>
    rw [OpTree.items, ← ih]
    rfl
  | binary l s r ihl ihr =>
    rw [OpTree.items, ← ihl, ← ihr]
    simp [OpTree.chain, Chain.items, Link.items]

end TemplateEngine
