import TemplateEngine.Proofs.Printing.Lists
import TemplateEngine.Proofs.Printing.Ungrouped

/-!
# Printed expressions

An expression is printed without parentheses that group. If its nodes need none, then what is
printed is read back as an expression that is the same but for the places of its nodes
(`readsBack_of_nodes`). Operands are read back together with what is reached from them, so that the
induction on an operand goes through its target.
-/

namespace TemplateEngine

open Scanner

/-! ## What is printed -/

/-- The node is printed as it can be written: floats are not, texts are if their characters are
plain, and keys are if they are names. -/
def Expr.Plain : Expr → Prop
  | .literal (.float _) _ => False
  | .literal (.text s) _ => ∀ c ∈ s.toList, IsPlainChar c
  | .map entries _ => ∀ x ∈ entries, IsIdentifier x.1
  | _ => True

instance : DecidablePred Expr.Plain := fun
  | .literal (.float _) _ => isFalse id
  | .literal (.text s) _ => List.decidableBAll IsPlainChar s.toList
  | .map entries _ => List.decidableBAll (fun x : String × Expr => IsIdentifier x.1) entries
  | .literal .null _ | .literal (.bool _) _ | .literal (.int _) _ | .var _ | .member .. | .index ..
  | .call .. | .list .. | .unary .. | .binary .. => isTrue trivial

/-- What is printed for a link of a chain. -/
def Link.text (l : Link Expr) : List Char :=
  ' ' :: (l.sign.op.symbol.toList ++ ' ' ::
    ((l.unary.flatMap fun s => s.op.text) ++ l.operand.display.toList))

/-- What is printed for a chain. -/
def Chain.text (x : Chain Expr) : List Char :=
  (x.unary.flatMap fun s => s.op.text) ++ x.head.display.toList ++ x.links.flatMap Link.text

theorem OpTree.toList_display (t : OpTree Expr) : t.toExpr.display.toList = t.chain.text := by
  induction t with
  | operand e => simp [toExpr, chain, Chain.text]
  | unary s t ih =>
    obtain ⟨op, p⟩ := s
    cases op <;> simp [toExpr, chain, Chain.text, Expr.display, ih, UnaryOp.text]
  | binary l s r ihl ihr =>
    simp [toExpr, chain, Chain.text, Expr.display, ihl, ihr, Link.text, String.toList_append]

theorem toList_displayItems (es : List Expr) :
    (displayItems es).toList = printedList (fun e => e.display.toList) es := by
  induction es with
  | nil => rfl
  | cons e es ih =>
    cases es with
    | nil => simp [displayItems, printedList]
    | cons e' es =>
      rw [displayItems, String.toList_append, String.toList_append, ih]
      · simp [printedList]
      · exact List.cons_ne_nil e' es

/-- What is printed for a key and its value. -/
def entryText (x : String × Expr) : List Char := x.1.toList ++ ':' :: ' ' :: x.2.display.toList

theorem toList_displayEntries (xs : List (String × Expr)) :
    (displayEntries xs).toList = printedList entryText xs := by
  induction xs with
  | nil => rfl
  | cons x xs ih =>
    cases xs with
    | nil => simp [displayEntries, printedList, entryText]
    | cons x' xs =>
      rw [displayEntries]
      · simp [printedList, entryText, String.toList_append, ih]
      · exact List.cons_ne_nil x' xs

/-! ## Reading back -/

/-- What is printed for the expression is read back, wherever an expression can end. -/
def Expr.ReadsBack (e : Expr) : Prop :=
  ReadBack expression (fun b a => a.unplaced = b.unplaced) (fun e => e.display.toList) e

/-- Reading an access gives what is to be reached. -/
def Reaching (step access : Expr → Expr) : Prop := ∀ e, (access e).unplaced = step e.unplaced

/-- What is printed for the operand is read back, whatever is then reached from it. -/
structure Expr.OperandReadsBack (o : Expr) : Prop where
  gap : ∀ rest, skipGap (o.display.toList ++ rest) = o.display.toList ++ rest
  sign : ∀ rest, EndsLexeme rest → Fails unarySign (o.display.toList ++ rest)
  reads : ∀ {rest behind} (steps : List (Expr → Expr)), EndsLexeme rest →
    Spans (accessor expression) Reaching steps (skipGap rest) behind →
      Reaches (operand expression) (o.display.toList ++ rest) behind
        fun a => a.unplaced = steps.foldl (fun e step => step e) o.unplaced

/-! ## Chains -/

/-- Nothing is reached from an operand here. -/
structure EndsOperand (cs : List Char) : Prop where
  lexeme : EndsLexeme cs
  access : ∀ c ∈ (skipGap cs).head?, c ≠ '.' ∧ c ≠ '[' ∧ c ≠ '('

theorem EndsExpr.endsOperand {cs : List Char} (h : EndsExpr cs) : EndsOperand cs where
  lexeme := h.lexeme
  access := by
    obtain ⟨c, rest, hrest, hc⟩ := h.closed
    rw [hrest]
    rintro _ ⟨⟩
    obtain rfl | rfl | rfl | rfl := isClosing_iff.1 hc <;> decide

/-- No operator begins like an access or a gap. -/
theorem BinaryOp.symbol_begins (op : BinaryOp) : ∃ c cs, op.symbol.toList = c :: cs ∧
    isGap c = false ∧ c ≠ '.' ∧ c ≠ '[' ∧ c ≠ '(' := by
  cases op <;> exact ⟨_, _, rfl, by decide⟩

theorem endsOperand_links (links : List (Link Expr)) {rest : List Char} (h : EndsExpr rest) :
    EndsOperand (links.flatMap Link.text ++ rest) := by
  cases links with
  | nil => exact h.endsOperand
  | cons l links =>
    obtain ⟨c, cs, hsymbol, hgap, haccess⟩ := l.sign.op.symbol_begins
    refine ⟨endsLexeme_cons (by decide) (by decide) _, ?_⟩
    rw [List.flatMap_cons, Link.text, hsymbol]
    change ∀ c' ∈ (skipGap (c :: _)).head?, _
    rw [skipGap_cons hgap]
    rintro _ ⟨⟩
    exact haccess

/-- An operand from which nothing is reached. -/
theorem Expr.OperandReadsBack.alone {o : Expr} (h : o.OperandReadsBack) {rest : List Char}
    (hrest : EndsOperand rest) : Reaches (operand expression) (o.display.toList ++ rest)
      (skipGap rest) fun a => a.unplaced = o.unplaced :=
  h.reads [] hrest.lexeme (.nil (fails_accessor hrest.access) (skipGap_skipGap rest))

/-- Nothing is skipped before printed signs. -/
theorem skipGap_signs {signs : List UnarySign} {o : Expr} (h : o.OperandReadsBack)
    (rest : List Char) :
    skipGap ((signs.flatMap fun s => s.op.text) ++ (o.display.toList ++ rest)) =
      (signs.flatMap fun s => s.op.text) ++ (o.display.toList ++ rest) := by
  cases signs with
  | nil => exact h.gap rest
  | cons s signs =>
    obtain ⟨op, p⟩ := s
    cases op <;> exact skipGap_cons (by decide) _

theorem spans_signs {signs : List UnarySign} {o : Expr} (h : o.OperandReadsBack)
    {rest : List Char} (hrest : EndsLexeme rest) :
    Spans unarySign (fun b a => a.unplaced = b.unplaced) signs
      ((signs.flatMap fun s => s.op.text) ++ (o.display.toList ++ rest))
      (o.display.toList ++ rest) := by
  induction signs with
  | nil => exact .nil (h.sign rest hrest) (h.gap rest)
  | cons s signs ih =>
    rw [List.flatMap_cons, List.append_assoc]
    refine .cons ((reaches_unarySign s.op (skipGap_signs h rest)).mono ?_) ?_ ih
    · rintro ⟨op, p⟩ rfl
      rfl
    · have hlength : 0 < s.op.text.length := by
        cases s.op <;> decide
      simp only [List.length_append]
      omega

theorem map_eq_of_forall₂_eq {α β : Type} {f : α → β} {bs as : List α}
    (h : List.Forall₂ (fun b a => f a = f b) bs as) : as.map f = bs.map f := by
  induction h with
  | nil => rfl
  | cons ha _ ih => rw [List.map_cons, List.map_cons, ha, ih]

/-- Behind its space a link begins with its operator. -/
theorem Link.skipGap_text (l : Link Expr) (rest : List Char) :
    skipGap (l.text ++ rest) = l.sign.op.symbol.toList ++ ' ' ::
      ((l.unary.flatMap fun s => s.op.text) ++ (l.operand.display.toList ++ rest)) := by
  obtain ⟨c, cs, hsymbol, hgap, -⟩ := l.sign.op.symbol_begins
  have hspace : l.text ++ rest = ' ' :: c :: (cs ++ ' ' ::
      ((l.unary.flatMap fun s => s.op.text) ++ (l.operand.display.toList ++ rest))) := by
    rw [text, hsymbol]
    simp
  rw [hspace, hsymbol]
  exact skipGap_cons hgap _

theorem reaches_link {l : Link Expr} (h : l.operand.OperandReadsBack) {rest : List Char}
    (hrest : EndsOperand rest) : Reaches (link expression) (skipGap (l.text ++ rest))
      (skipGap rest) fun a => a.unplaced = l.unplaced := by
  rw [l.skipGap_text]
  refine .bind (scans_binarySign l.sign.op _) ?_
  rintro s _ ⟨hs, rfl⟩
  refine .blanks ?_
  change Scans _ (skipGap ((l.unary.flatMap fun s => s.op.text) ++ _)) _
  rw [skipGap_signs h rest]
  refine (spans_signs h hrest.lexeme).reaches_many.blanks fun signs hsigns => ?_
  refine (h.alone hrest).map fun a ha => ?_
  obtain ⟨op, p⟩ := s
  obtain rfl := hs
  rw [Link.unplaced, Link.unplaced, ha, map_eq_of_forall₂_eq hsigns]
  rfl

theorem spans_links {links : List (Link Expr)} (h : ∀ l ∈ links, l.operand.OperandReadsBack)
    {rest : List Char} (hrest : EndsExpr rest) :
    Spans (link expression) (fun b a => a.unplaced = b.unplaced) links
      (skipGap (links.flatMap Link.text ++ rest)) (skipGap rest) := by
  induction links with
  | nil =>
    obtain ⟨c, cs, hcs, hc⟩ := hrest.closed
    refine .nil (.bind ?_) (skipGap_skipGap rest)
    rw [List.flatMap_nil, List.nil_append, hcs]
    exact fails_binarySign hc
  | cons l links ih =>
    obtain ⟨hl, hlinks⟩ := List.forall_mem_cons.1 h
    rw [List.flatMap_cons, List.append_assoc]
    refine .cons (reaches_link hl (endsOperand_links links hrest)) ?_ (ih hlinks)
    have hle := length_skipGap_le (links.flatMap Link.text ++ rest)
    rw [l.skipGap_text]
    simp only [List.length_cons, List.length_append] at hle ⊢
    omega

/-- A graded tree of operands that are read back is read back. -/
theorem readsBack_of_operands {e : Expr} (hgraded : e.tree.Graded)
    (h : ∀ o ∈ e.tree.operands, o.OperandReadsBack) : e.ReadsBack := by
  have hoperands : e.tree.operands = e.tree.chain.operands := by
    rw [OpTree.operands_eq, ← e.tree.items_chain, Chain.operands_eq]
  rw [hoperands, Chain.operands] at h
  obtain ⟨hhead, hlinks⟩ := List.forall_mem_cons.1 h
  have hlinks : ∀ l ∈ e.tree.chain.links, l.operand.OperandReadsBack :=
    fun l hl => hlinks _ (List.mem_map_of_mem hl)
  have htext : e.display.toList = e.tree.chain.text := by
    rw [← e.tree.toList_display, e.toExpr_tree]
  refine ⟨fun rest => ?_, fun rest hrest => ?_⟩
  · dsimp only
    rw [htext, Chain.text, List.append_assoc, List.append_assoc]
    exact skipGap_signs hhead _
  · dsimp only
    rw [htext, Chain.text, List.append_assoc, List.append_assoc, expression_eq]
    have hends := endsOperand_links e.tree.chain.links hrest
    have hchain : Reaches (chain expression) ((e.tree.chain.unary.flatMap fun s => s.op.text) ++
        (e.tree.chain.head.display.toList ++
          (e.tree.chain.links.flatMap Link.text ++ rest))) (skipGap rest)
        fun x => x.unplaced = e.tree.chain.unplaced := by
      refine .rule <| (spans_signs hhead hends.lexeme).reaches_many.blanks fun signs hsigns => ?_
      refine (hhead.alone hends).blanks fun head hheadread => ?_
      refine (spans_links hlinks hrest).reaches_many.map fun links hlinksread => ?_
      rw [Chain.unplaced, Chain.unplaced, hheadread, map_eq_of_forall₂_eq hsigns,
        map_eq_of_forall₂_eq hlinksread]
    refine hchain.map fun x hx => ?_
    calc x.toTree.toExpr.unplaced
        = x.unplaced.toTree.toExpr := by rw [← OpTree.toExpr_unplaced, x.toTree_unplaced]
      _ = e.tree.chain.unplaced.toTree.toExpr := by rw [hx]
      _ = e.tree.chain.toTree.toExpr.unplaced := by
        rw [Chain.toTree_unplaced, OpTree.toExpr_unplaced]
      _ = e.unplaced := by rw [OpTree.toTree_chain hgraded, e.toExpr_tree]

end TemplateEngine
