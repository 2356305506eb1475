import TemplateEngine.Proofs.Printing.Parentheses

/-!
# Expressions without groups

Every call in an expression opens a parenthesis in its text, and so does every group, and nothing
else does. So where no more parentheses open than there are calls, nothing is grouped, and every
node stands where the levels of the operators alone put it (`tallies_expression`).
-/

namespace TemplateEngine

open Scanner

/-! ## Nodes -/

/-- The node is as any source spells it. -/
def Expr.AsRead : Expr → Prop
  | .literal value _ => value.Unsigned
  | .var ref => IsIdentifier ref.name ∧ ref.scope = .global
  | .member _ name _ => IsIdentifier name
  | _ => True

/-- The node needs no parentheses: something is reached from no operation, and the operands of an
operator are graded. -/
def Expr.Bare : Expr → Prop
  | .member target _ _ | .index target _ _ | .call target _ _ => target.isOperation = false
  | .unary op operand _ => ∀ p ∈ operand.tree.infixLevel?, (Operator.unary op).level ≤ p
  | .binary op left right _ =>
    (∀ p ∈ right.tree.infixLevel?, (Operator.binary op).level < p) ∧
      ∀ p ∈ left.tree.spineLevels, (Operator.binary op).level ≤ p
  | _ => True

/-- The nodes are as sources spell them, and there are no more calls among them than parentheses
that open. If there are as many, the nodes need no parentheses. -/
structure Tally (nodes : List Expr) (opened : Nat) : Prop where
  asRead : ∀ x ∈ nodes, x.AsRead
  le : nodes.countP (·.isCall) ≤ opened
  bare : nodes.countP (·.isCall) = opened → ∀ x ∈ nodes, x.Bare

namespace Tally

variable {ns ms : List Expr} {n m : Nat}

theorem nil : Tally [] 0 := ⟨nofun, Nat.le_refl _, fun _ => nofun⟩

theorem append (h : Tally ns n) (k : Tally ms m) : Tally (ns ++ ms) (n + m) where
  asRead := List.forall_mem_append.2 ⟨h.asRead, k.asRead⟩
  le := by
    rw [List.countP_append]
    exact Nat.add_le_add h.le k.le
  bare heq := by
    have hn := h.le
    have hm := k.le
    rw [List.countP_append] at heq
    exact List.forall_mem_append.2 ⟨h.bare (by omega), k.bare (by omega)⟩

/-- A node in front that is no call. -/
theorem cons {x : Expr} (h : Tally ns n) (hread : x.AsRead) (hcall : x.isCall = false)
    (hbare : ns.countP (·.isCall) = n → x.Bare) : Tally (x :: ns) n where
  asRead := List.forall_mem_cons.2 ⟨hread, h.asRead⟩
  le := by
    rw [List.countP_cons_of_neg (by rw [hcall]; exact Bool.false_ne_true)]
    exact h.le
  bare heq := by
    rw [List.countP_cons_of_neg (by rw [hcall]; exact Bool.false_ne_true)] at heq
    exact List.forall_mem_cons.2 ⟨hbare heq, h.bare heq⟩

/-- A call in front, for which a parenthesis opens. -/
theorem cons_call {x : Expr} (h : Tally ns n) (hread : x.AsRead) (hcall : x.isCall = true)
    (hbare : ns.countP (·.isCall) = n → x.Bare) : Tally (x :: ns) (n + 1) where
  asRead := List.forall_mem_cons.2 ⟨hread, h.asRead⟩
  le := by
    rw [List.countP_cons_of_pos hcall]
    exact Nat.succ_le_succ h.le
  bare heq := by
    rw [List.countP_cons_of_pos hcall] at heq
    have heq := Nat.succ.inj heq
    exact List.forall_mem_cons.2 ⟨hbare heq, h.bare heq⟩

/-- A parenthesis that opens no arguments. -/
theorem succ (h : Tally ns n) : Tally ns (n + 1) where
  asRead := h.asRead
  le := Nat.le_succ_of_le h.le
  bare heq := by
    have hle := h.le
    omega

end Tally

/-- The nodes of operands, none of which is an operation if nothing is grouped. -/
structure OperandsTally (operands : List Expr) (opened : Nat) : Prop where
  tally : Tally (operands.flatMap Expr.nodes) opened
  alone : (operands.flatMap Expr.nodes).countP (·.isCall) = opened →
    ∀ o ∈ operands, o.isOperation = false

/-- The nodes of an operand, which is no operation if nothing is grouped. -/
structure OperandTally (operand : Expr) (opened : Nat) : Prop where
  tally : Tally operand.nodes opened
  alone : operand.nodes.countP (·.isCall) = opened → operand.isOperation = false

theorem OperandsTally.nil : OperandsTally [] 0 := ⟨.nil, fun _ => nofun⟩

theorem OperandsTally.cons {o : Expr} {os : List Expr} {n m : Nat} (h : OperandTally o n)
    (k : OperandsTally os m) : OperandsTally (o :: os) (n + m) where
  tally := h.tally.append k.tally
  alone heq := by
    have hn := h.tally.le
    have hm := k.tally.le
    rw [List.flatMap_cons, List.countP_append] at heq
    exact List.forall_mem_cons.2 ⟨h.alone (by omega), k.alone (by omega)⟩

/-! ## Trees -/

theorem OpTree.countP_toExpr (t : OpTree Expr) :
    t.toExpr.nodes.countP (·.isCall) = (t.operands.flatMap Expr.nodes).countP (·.isCall) := by
  induction t with
  | operand o => simp [toExpr, operands]
  | unary s t ih =>
    rw [toExpr, Expr.nodes, List.countP_cons_of_neg Bool.false_ne_true, ih]
    rfl
  | binary l s r ihl ihr =>
    rw [toExpr, Expr.nodes, List.countP_cons_of_neg Bool.false_ne_true, List.countP_append, ihl,
      ihr, operands, List.flatMap_append, List.countP_append]

theorem OpTree.asRead_toExpr {t : OpTree Expr} (h : ∀ o ∈ t.operands, ∀ x ∈ o.nodes, x.AsRead) :
    ∀ x ∈ t.toExpr.nodes, x.AsRead := by
  induction t with
  | operand o => exact h o List.mem_cons_self
  | unary s t ih => exact List.forall_mem_cons.2 ⟨trivial, ih h⟩
  | binary l s r ihl ihr =>
    obtain ⟨hl, hr⟩ := List.forall_mem_append.1 h
    exact List.forall_mem_cons.2 ⟨trivial, List.forall_mem_append.2 ⟨ihl hl, ihr hr⟩⟩

/-- A graded tree over operands that are no operations needs no parentheses. -/
theorem OpTree.bare_toExpr {t : OpTree Expr} (hgraded : t.Graded)
    (halone : ∀ o ∈ t.operands, o.isOperation = false)
    (h : ∀ o ∈ t.operands, ∀ x ∈ o.nodes, x.Bare) : ∀ x ∈ t.toExpr.nodes, x.Bare := by
  induction t with
  | operand o => exact h o List.mem_cons_self
  | unary s t ih =>
    refine List.forall_mem_cons.2 ⟨?_, ih hgraded.2 halone h⟩
    change ∀ p ∈ t.toExpr.tree.infixLevel?, _
    rw [tree_toExpr (t := t) halone]
    exact hgraded.1
  | binary l s r ihl ihr =>
    obtain ⟨hright, hspine, hl, hr⟩ := hgraded
    obtain ⟨halonel, haloner⟩ := List.forall_mem_append.1 halone
    obtain ⟨hbarel, hbarer⟩ := List.forall_mem_append.1 h
    refine List.forall_mem_cons.2 ⟨?_, List.forall_mem_append.2
      ⟨ihl hl halonel hbarel, ihr hr haloner hbarer⟩⟩
    change (∀ p ∈ r.toExpr.tree.infixLevel?, _) ∧ ∀ p ∈ l.toExpr.tree.spineLevels, _
    rw [tree_toExpr halonel, tree_toExpr haloner]
    exact ⟨hright, hspine⟩

theorem OpTree.tally_toExpr {t : OpTree Expr} {n : Nat} (hgraded : t.Graded)
    (h : OperandsTally t.operands n) : Tally t.toExpr.nodes n where
  asRead := asRead_toExpr fun o ho x hx => h.tally.asRead x (List.mem_flatMap.2 ⟨o, ho, hx⟩)
  le := by
    rw [countP_toExpr]
    exact h.tally.le
  bare heq := by
    rw [countP_toExpr] at heq
    exact bare_toExpr hgraded (h.alone heq) fun o ho x hx =>
      h.tally.bare heq x (List.mem_flatMap.2 ⟨o, ho, hx⟩)

/-! ## Lists -/

namespace Scanner.Tallies

variable {α β : Type} {p : Scanner α} {f : α → Scanner β} {R : β → Nat → Prop}
  {nodes : α → List Expr}

/-- Nothing opens in the first part, of which something is known. -/
theorem known {P : α → Prop} (hp : p.Tallies fun a n => n = 0 ∧ P a)
    (hf : ∀ a, P a → Tallies R (f a)) : Tallies R (p >>= f) := by
  refine .bind hp ?_
  rintro a _ ⟨rfl, ha⟩
  exact (hf a ha).mono fun b m hR => by simpa using hR

theorem separated (hp : p.Tallies fun a n => Tally (nodes a) n) :
    (separated p).Tallies fun as n => Tally (as.flatMap nodes) n := by
  have hmore : (Scanner.many (do exactly ","; blanks; p)).Tallies
      fun as n => Tally (as.flatMap nodes) n :=
    .many (.quiet (quiet_exactly (by decide)) fun _ => .quiet quiet_blanks fun _ => hp) .nil
      fun _ _ _ _ ha has => ha.append has
  exact .bind hp fun a n ha => .quiet quiet_blanks fun _ => .bind hmore fun as m has =>
    .pure (ha.append has)

theorem listed (hp : p.Tallies fun a n => Tally (nodes a) n) :
    (listed p).Tallies fun as n => Tally (as.flatMap nodes) n :=
  .bind (separated hp) fun as n has => .quiet quiet_blanks fun _ =>
    .quiet (.optional (quiet_exactly (by decide)) rfl fun _ _ hn => hn) fun _ => .pure has

/-- What may be left out has no nodes then. -/
theorem optional_list {p : Scanner (List α)}
    (hp : p.Tallies fun as n => Tally (as.flatMap nodes) n) :
    (Scanner.optional p).Tallies fun x n => Tally ((x.getD []).flatMap nodes) n :=
  .optional hp .nil fun _ _ has => has

end Scanner.Tallies

/-! ## Operands -/

section

variable {deeper : Scanner Expr} (h : deeper.Tallies fun e n => Tally e.nodes n)

theorem tallies_memberAccess : memberAccess.Tallies fun access n =>
    ∀ e m, OperandTally e m → OperandTally (access e) (m + n) := by
  refine .rule <| .here fun p => .quiet (quiet_exactly (by decide)) fun _ =>
    .quiet quiet_blanks fun _ => .known tallies_identifier fun name hname => .pure ?_
  intro e m he
  exact ⟨he.tally.cons hname rfl he.alone, fun _ => rfl⟩

include h

theorem tallies_indexAccess : (indexAccess deeper).Tallies fun access n =>
    ∀ e m, OperandTally e m → OperandTally (access e) (m + n) := by
  refine .rule <| .here fun p => .quiet (quiet_exactly (by decide)) fun _ =>
    .quiet quiet_blanks fun _ => .bind h fun key n hkey => .quiet quiet_blanks fun _ =>
    .quiet (quiet_exactly (by decide)) fun _ => .pure ?_
  intro e m he
  refine ⟨(he.tally.append hkey).cons trivial rfl fun heq => he.alone ?_, fun _ => rfl⟩
  have hm := he.tally.le
  have hn := hkey.le
  rw [List.countP_append] at heq
  omega

theorem tallies_callAccess : (callAccess deeper).Tallies fun access n =>
    ∀ e m, OperandTally e m → OperandTally (access e) (m + n) := by
  refine .rule <| .here fun p => .bind tallies_opening ?_
  rintro _ _ rfl
  refine .quiet quiet_blanks fun _ => .bind (.optional_list (.separated h)) fun args n hargs =>
    .quiet quiet_blanks fun _ => .quiet (quiet_exactly (by decide)) fun _ => .pure ?_
  intro e m he
  have hcall : Tally (Expr.call e (args.getD []) p).nodes (m + n + 1) := by
    rw [Expr.nodes, nodesOfItems_eq]
    refine (he.tally.append hargs).cons_call trivial rfl fun heq => he.alone ?_
    have hm := he.tally.le
    have hn := hargs.le
    rw [List.countP_append] at heq
    omega
  have hsum : m + (1 + (n + 0)) = m + n + 1 := by omega
  exact ⟨hsum ▸ hcall, fun _ => rfl⟩

theorem tallies_accessor : (accessor deeper).Tallies fun access n =>
    ∀ e m, OperandTally e m → OperandTally (access e) (m + n) := by
  refine .firstOf ?_
  simp only [List.forall_mem_cons, List.not_mem_nil, false_imp_iff, implies_true, and_true]
  exact ⟨tallies_memberAccess, tallies_indexAccess h, tallies_callAccess h⟩

theorem tallies_mapEntry :
    (mapEntry deeper).Tallies fun x n => Tally (x : String × Expr).2.nodes n := by
  have hkey : (orElse identifier stringLiteral).Quiet :=
    .orElse (tallies_identifier.mono fun _ _ hn => hn.1) quiet_stringLiteral
  exact .rule <| .quiet hkey fun _ => .quiet quiet_blanks fun _ =>
    .quiet (quiet_exactly (by decide)) fun _ => .quiet quiet_blanks fun _ =>
    .bind h fun e n he => .pure he

theorem tallies_primary : (primary deeper).Tallies OperandTally := by
  refine .here fun p => .firstOf ?_
  simp only [List.forall_mem_cons, List.not_mem_nil, false_imp_iff, implies_true, and_true]
  refine ⟨?_, ?_, ?_, ?_, ?_⟩
  · exact .known tallies_literal fun value hvalue =>
      .pure ⟨Tally.nil.cons hvalue rfl fun _ => trivial, fun _ => rfl⟩
  · refine .rule <| .here fun p => .quiet (quiet_exactly (by decide)) fun _ =>
      .quiet quiet_blanks fun _ => .bind (.optional_list (.listed h)) fun items n hitems =>
      .quiet quiet_blanks fun _ => .quiet (quiet_exactly (by decide)) fun _ => .pure ?_
    rw [← nodesOfItems_eq] at hitems
    exact ⟨hitems.cons trivial rfl fun _ => trivial, fun _ => rfl⟩
  · refine .rule <| .here fun p => .quiet (quiet_exactly (by decide)) fun _ =>
      .quiet quiet_blanks fun _ =>
      .bind (.optional_list (.listed (tallies_mapEntry h))) fun entries n hentries =>
      .quiet quiet_blanks fun _ => .quiet (quiet_exactly (by decide)) fun _ => .pure ?_
    rw [← nodesOfEntries_eq] at hentries
    exact ⟨hentries.cons trivial rfl fun _ => trivial, fun _ => rfl⟩
  · exact .known tallies_identifier fun name hname =>
      .pure ⟨Tally.nil.cons ⟨hname, rfl⟩ rfl fun _ => trivial, fun _ => rfl⟩
  · -- a group opens a parenthesis for which there is no call
    refine .bind tallies_opening ?_
    rintro _ _ rfl
    refine .quiet quiet_blanks fun _ => .bind h fun e n he => .quiet quiet_blanks fun _ =>
      .quiet (quiet_exactly (by decide)) fun _ => .pure ?_
    have hsum : 1 + (n + 0) = n + 1 := by omega
    have hle := he.le
    exact hsum ▸ ⟨he.succ, fun heq => by omega⟩

theorem tallies_operand : (operand deeper).Tallies OperandTally := by
  have haccessors : (many (accessor deeper)).Tallies fun accessors n => ∀ e m, OperandTally e m →
      OperandTally (accessors.foldl (fun e access => access e) e) (m + n) := by
    refine .many (tallies_accessor h) (fun e m he => he) ?_
    intro access accessors n k haccess haccessors e m he
    rw [← Nat.add_assoc]
    exact haccessors _ _ (haccess e m he)
  exact .rule <| .bind (tallies_primary h) fun first n hfirst => .quiet quiet_blanks fun _ =>
    .bind haccessors fun accessors m haccessors => .pure (haccessors first n hfirst)

/-! ## Expressions -/

theorem tallies_chain : (chain deeper).Tallies fun x n => OperandsTally x.operands n := by
  have hsigns : (many unarySign).Quiet :=
    .many quiet_unarySign rfl fun _ _ n m hn hm => by omega
  have hlink : (link deeper).Tallies fun l n => OperandTally l.operand n :=
    .quiet quiet_binarySign fun _ => .quiet quiet_blanks fun _ => .quiet hsigns fun _ =>
      .quiet quiet_blanks fun _ => .bind (tallies_operand h) fun _ _ ho => .pure ho
  have hlinks : (many (link deeper)).Tallies
      fun ls n => OperandsTally (ls.map (·.operand)) n :=
    .many hlink .nil fun _ _ _ _ hl hls => .cons hl hls
  exact .rule <| .quiet hsigns fun _ => .quiet quiet_blanks fun _ =>
    .bind (tallies_operand h) fun head n hhead => .quiet quiet_blanks fun _ =>
    .bind hlinks fun links m hlinks => .pure (.cons hhead hlinks)

theorem tallies_grouping : (grouping deeper).Tallies fun e n => Tally e.nodes n :=
  .bind (tallies_chain h) fun x _ hx =>
    .pure (OpTree.tally_toExpr x.graded_toTree (x.operands_toTree ▸ hx))

end

/-- No more parentheses are opened by an expression than there are calls in it, unless something is
grouped. -/
theorem tallies_expression : expression.Tallies fun e n => Tally e.nodes n := by
  have hwithin : ∀ room : List Char,
      (expressionWithin room).Tallies fun e n => Tally e.nodes n := by
    intro room
    induction room with
    | nil => exact tallies_grouping .fail
    | cons _ room ih => exact tallies_grouping ih
  intro c e d h
  exact hwithin c.rest h

end TemplateEngine
