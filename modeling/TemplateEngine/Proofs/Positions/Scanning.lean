import TemplateEngine.Proofs.Positions.Nodes
import TemplateEngine.Proofs.Precedence.Sources

/-!
# Places in a source

A cursor that is in a source stays in it while scanners read, and the places that they note are
places of the source (`Scanner.Places`); none of these is the unknown one
(`Position.In.ne_unknown`). So every node of an expression stands in the source that the expression
was read from (`places_expression`).
-/

namespace TemplateEngine

open Scanner

/-! ## Places of a source -/

/-- The place is behind some beginning of the source. -/
def Position.In (source : List Char) (p : Position) : Prop :=
  ∃ before, before <+: source ∧ p = Position.start.after before

theorem Position.one_le_line_after {p : Position} (h : 1 ≤ p.line) (text : List Char) :
    1 ≤ (p.after text).line := by
  induction text generalizing p with
  | nil => exact h
  | cons c cs ih =>
    refine ih ?_
    unfold step
    split
    · exact Nat.le_add_left 1 p.line
    · exact h

/-- No source has the unknown place. -/
theorem Position.In.ne_unknown {source : List Char} {p : Position} (h : p.In source) :
    p ≠ .unknown := by
  obtain ⟨before, -, rfl⟩ := h
  intro hunknown
  have hline := one_le_line_after (p := .start) (Nat.le_refl 1) before
  rw [hunknown] at hline
  exact absurd hline (by decide)

/-- The cursor is behind some beginning of the source. -/
def Cursor.In (source : List Char) (c : Cursor) : Prop :=
  ∃ before, (Cursor.start source).Behind before c

namespace Cursor.In

variable {source text : List Char} {c d : Cursor}

theorem start (source : List Char) : (Cursor.start source).In source := ⟨[], .refl _⟩

theorem behind (h : c.In source) (hd : c.Behind text d) : d.In source := by
  obtain ⟨before, hc⟩ := h
  exact ⟨before ++ text, hc.trans hd⟩

theorem position (h : c.In source) : c.position.In source := by
  obtain ⟨before, hc⟩ := h
  exact ⟨before, ⟨c.rest, hc.rest.symm⟩, hc.position⟩

end Cursor.In

/-! ## Scanners -/

namespace Scanner

variable {α β : Type} {source : List Char}

/-- In the source the scanner reads only what has the property, and it stays in the source. -/
def Places (source : List Char) (Q : α → Prop) (p : Scanner α) : Prop :=
  ∀ ⦃c a d⦄, c.In source → p.Reads c a d → Q a ∧ d.In source

namespace Places

variable {Q : α → Prop} {R : β → Prop} {p q : Scanner α} {f : α → Scanner β}

theorem of_advances (h : p.Advances) : p.Places source fun _ => True := by
  intro c a d hc hreads
  obtain ⟨text, hd⟩ := h hreads
  exact ⟨trivial, hc.behind hd⟩

protected theorem pure {b : β} (h : R b) : (pure b : Scanner β).Places source R := by
  rintro c _ _ hc ⟨⟩
  exact ⟨h, hc⟩

protected theorem bind (hp : p.Places source Q) (hf : ∀ a, Q a → (f a).Places source R) :
    (p >>= f).Places source R := by
  intro c b d hc h
  obtain ⟨a, e, ha, hb⟩ := reads_bind.1 h
  obtain ⟨hQ, he⟩ := hp hc ha
  exact hf a hQ he hb

/-- What is read first says nothing about places. -/
theorem skip (hp : p.Advances) (hf : ∀ a, (f a).Places source R) : (p >>= f).Places source R :=
  .bind (.of_advances hp) fun a _ => hf a

protected theorem fail : (fail : Scanner α).Places source Q := nofun

theorem orElse (hp : p.Places source Q) (hq : q.Places source Q) :
    (orElse p q).Places source Q := by
  intro c a d hc h
  obtain h | ⟨-, h⟩ := reads_orElse.1 h
  · exact hp hc h
  · exact hq hc h

theorem firstOf {ps : List (Scanner α)} (h : ∀ p ∈ ps, p.Places source Q) :
    (firstOf ps).Places source Q := by
  intro c a d hc hreads
  obtain ⟨p, hp, hreads⟩ := hreads.of_firstOf
  exact h p hp hc hreads

theorem rule (hp : p.Places source Q) : (rule p).Places source Q :=
  fun _ _ _ hc h => hp hc (reads_rule.1 h)

theorem optional (hp : p.Places source Q) : (optional p).Places source fun x => ∀ a ∈ x, Q a :=
  .orElse (.bind hp fun _ ha => .pure fun _ hx => Option.mem_some.1 hx ▸ ha) (.pure nofun)

/-- A scanner may depend on the cursor that it starts from. -/
theorem atCursor {p : Cursor → Scanner α} (h : ∀ c, (p c).Places source Q) :
    Places source Q fun c => p c c := fun c _ _ hc hreads => h c hc hreads

theorem here : here.Places source (Position.In source) := by
  rintro c _ _ hc ⟨⟩
  exact ⟨hc.position, hc⟩

theorem many (hp : p.Places source Q) : (many p).Places source fun xs => ∀ a ∈ xs, Q a := by
  intro c xs d hc h
  have hruns := h.runs_of_many
  clear h
  induction hruns with
  | nil c => exact ⟨nofun, hc⟩
  | cons hgap hx _ ih =>
    obtain ⟨gap, -, hbehind⟩ := hgap
    obtain ⟨ha, hd⟩ := hp (hc.behind hbehind) hx
    obtain ⟨hrest, he⟩ := ih hd
    exact ⟨List.forall_mem_cons.2 ⟨ha, hrest⟩, he⟩

theorem separated (hp : p.Places source Q) :
    (separated p).Places source fun xs => ∀ a ∈ xs, Q a :=
  .bind hp fun _ ha => .skip .blanks fun _ =>
    .bind (.many (.skip (.exactly ",") fun _ => .skip .blanks fun _ => hp)) fun _ hrest =>
    .pure (List.forall_mem_cons.2 ⟨ha, hrest⟩)

end Places

end Scanner

/-! ## Expressions -/

variable {source : List Char}

theorem places_unarySign : unarySign.Places source fun s => s.position.In source := by
  refine .bind .here fun p hp => .skip (.firstOf ?_) fun _ => .pure hp
  simp only [List.forall_mem_cons, List.not_mem_nil, false_imp_iff, implies_true, and_true]
  exact ⟨advances_wordSign _ _, advances_sign _ _⟩

theorem places_binarySign : binarySign.Places source fun s => s.position.In source := by
  refine .bind .here fun p hp => .skip (.firstOf ?_) fun _ => .pure hp
  simp only [List.forall_mem_cons, List.not_mem_nil, false_imp_iff, implies_true,
    advances_wordSign, advances_sign, advances_remSign, and_self]

/-- What the item stands for stands at one of the places. -/
def Item.Stands (A : Position → Prop) : Item Expr → Prop
  | .unary s => A s.position
  | .binary s => A s.position
  | .operand e => e.Stands A

/-- A tree stands where its items do. -/
theorem OpTree.stands_toExpr {A : Position → Prop} (t : OpTree Expr) :
    t.toExpr.Stands A ↔ ∀ x ∈ t.items, x.Stands A := by
  induction t with
  | operand e => simp [toExpr, items, Item.Stands]
  | unary s t ih => simp [toExpr, items, Item.Stands, Expr.stands_unary, ih]
  | binary l s r ihl ihr =>
    simp only [toExpr, items, Expr.stands_binary, ihl, ihr, List.forall_mem_append,
      List.forall_mem_cons, Item.Stands]
    exact and_left_comm

section

variable {deeper : Scanner Expr} (h : deeper.Places source (Expr.Stands (Position.In source)))

include h

/-- What is reached from an expression in the source is in the source. -/
theorem places_accessor : (accessor deeper).Places source fun access =>
    ∀ e : Expr, e.Stands (Position.In source) → (access e).Stands (Position.In source) := by
  refine .firstOf ?_
  simp only [List.forall_mem_cons, List.not_mem_nil, false_imp_iff, implies_true, and_true]
  refine ⟨?_, ?_, ?_⟩
  · exact .rule <| .bind .here fun _ hp => .skip (.exactly _) fun _ => .skip .blanks fun _ =>
      .skip advances_identifier fun _ => .pure fun _ he => Expr.stands_member.2 ⟨hp, he⟩
  · exact .rule <| .bind .here fun _ hp => .skip (.exactly _) fun _ => .skip .blanks fun _ =>
      .bind h fun _ hkey => .skip .blanks fun _ => .skip (.exactly _) fun _ =>
      .pure fun _ he => Expr.stands_index.2 ⟨hp, he, hkey⟩
  · refine .rule <| .bind .here fun _ hp => .skip (.exactly _) fun _ => .skip .blanks fun _ =>
      .bind (.optional (.separated h)) fun args hargs => .skip .blanks fun _ =>
      .skip (.exactly _) fun _ => .pure fun _ he => Expr.stands_call.2 ⟨hp, he, ?_⟩
    cases args with
    | none => exact List.forall_mem_nil _
    | some args => exact hargs args rfl

omit h in
theorem places_listed {α : Type} {Q : α → Prop} {item : Scanner α} (hitem : item.Places source Q) :
    (listed item).Places source fun xs => ∀ a ∈ xs, Q a :=
  .bind (.separated hitem) fun _ hxs => .skip .blanks fun _ =>
    .skip (.optional (.exactly _)) fun _ => .pure hxs

theorem places_mapEntry :
    (mapEntry deeper).Places source fun x => x.2.Stands (Position.In source) :=
  .rule <| .skip (.orElse advances_identifier advances_stringLiteral) fun _ =>
    .skip .blanks fun _ => .skip (.exactly _) fun _ => .skip .blanks fun _ =>
    .bind h fun _ he => .pure he

theorem places_primary : (primary deeper).Places source (Expr.Stands (Position.In source)) := by
  refine .bind .here fun p hp => .firstOf ?_
  simp only [List.forall_mem_cons, List.not_mem_nil, false_imp_iff, implies_true, and_true]
  refine ⟨.skip advances_literal fun _ => .pure (Expr.stands_literal.2 hp), ?_, ?_,
    .skip advances_identifier fun _ => .pure (Expr.stands_var.2 hp), ?_⟩
  · refine .rule <| .bind .here fun _ hp => .skip (.exactly _) fun _ => .skip .blanks fun _ =>
      .bind (.optional (places_listed h)) fun items hitems => .skip .blanks fun _ =>
      .skip (.exactly _) fun _ => .pure (Expr.stands_list.2 ⟨hp, ?_⟩)
    cases items with
    | none => exact List.forall_mem_nil _
    | some items => exact hitems items rfl
  · refine .rule <| .bind .here fun _ hp => .skip (.exactly _) fun _ => .skip .blanks fun _ =>
      .bind (.optional (places_listed (places_mapEntry h))) fun entries hentries =>
      .skip .blanks fun _ => .skip (.exactly _) fun _ => .pure (Expr.stands_map.2 ⟨hp, ?_⟩)
    cases entries with
    | none => exact List.forall_mem_nil _
    | some entries => exact hentries entries rfl
  · exact .skip (.exactly _) fun _ => .skip .blanks fun _ => .bind h fun _ he =>
      .skip .blanks fun _ => .skip (.exactly _) fun _ => .pure he

theorem places_operand : (operand deeper).Places source (Expr.Stands (Position.In source)) := by
  refine .rule <| .bind (places_primary h) fun first hfirst => .skip .blanks fun _ =>
    .bind (.many (places_accessor h)) fun accessors haccess => .pure ?_
  exact List.foldlRecOn accessors _ hfirst fun e he access hmem => haccess access hmem e he

theorem places_link : (link deeper).Places source fun l => ∀ x ∈ l.items,
    x.Stands (Position.In source) := by
  refine .bind places_binarySign fun _ hsign => .skip .blanks fun _ =>
    .bind (.many places_unarySign) fun _ hunary => .skip .blanks fun _ =>
    .bind (places_operand h) fun _ hright => .pure ?_
  simpa [Link.items, Item.Stands, or_imp, forall_and] using ⟨hsign, hunary, hright⟩

theorem places_chain : (chain deeper).Places source fun x => ∀ y ∈ x.items,
    y.Stands (Position.In source) := by
  refine .rule <| .bind (.many places_unarySign) fun _ hunary => .skip .blanks fun _ =>
    .bind (places_operand h) fun _ hhead => .skip .blanks fun _ =>
    .bind (.many (places_link h)) fun _ hlinks => .pure ?_
  simp only [Chain.items, List.forall_mem_append, List.forall_mem_cons, List.forall_mem_map,
    List.forall_mem_flatMap]
  exact ⟨hunary, hhead, hlinks⟩

theorem places_grouping : (grouping deeper).Places source (Expr.Stands (Position.In source)) := by
  refine .bind (places_chain h) fun x hx => .pure ((OpTree.stands_toExpr _).2 ?_)
  rw [Chain.items_toTree]
  exact hx

end

/-- Expressions, by induction on the levels that are allowed. -/
theorem places_expressionWithin (room : List Char) :
    (expressionWithin room).Places source (Expr.Stands (Position.In source)) := by
  induction room with
  | nil => exact places_grouping .fail
  | cons _ room ih => exact places_grouping ih

theorem places_expression : expression.Places source (Expr.Stands (Position.In source)) :=
  .atCursor (p := fun c => expressionWithin c.rest) fun c => places_expressionWithin c.rest

theorem places_target : target.Places source (Expr.Stands (Position.In source)) :=
  .atCursor (p := fun c => operand (expressionWithin c.rest)) fun c =>
    places_operand (places_expressionWithin c.rest)

end TemplateEngine
