import TemplateEngine.Proofs.Spelling.Cursors

/-!
# Levels of nesting

An expression is allowed as many levels of nesting as there are characters left, and every level
takes a character. So scanners that agree on short rests give scanners that agree on longer ones
(`Scanner.Agree`), more levels than characters make no difference, and the grammar is the fixed
point that it was meant to be: an expression is a chain of operands, and the expressions in the
operands are expressions (`expression_eq`, `target_eq`).
-/

namespace TemplateEngine

open Scanner

theorem Cursor.Behind.length_le {c d : Cursor} {text : List Char} (h : c.Behind text d) :
    d.rest.length ≤ c.rest.length := by
  rw [h.rest, List.length_append]
  omega

namespace Scanner

variable {α β : Type} {n : Nat} {p q : Scanner α} {f g : α → Scanner β}

/-- The scanners do the same wherever fewer than `n` characters are left. -/
def Agree (n : Nat) (p q : Scanner α) : Prop := ∀ c : Cursor, c.rest.length < n → p c = q c

theorem bind_apply (p : Scanner α) (f : α → Scanner β) (c : Cursor) :
    (p >>= f) c = match (p c).result with
      | none => ⟨none, (p c).reach⟩
      | some (a, d) => ⟨(f a d).result, max (p c).reach (f a d).reach⟩ := rfl

namespace Agree

theorem refl (n : Nat) (p : Scanner α) : Agree n p p := fun _ _ => rfl

theorem zero (p q : Scanner α) : Agree 0 p q := fun _ h => absurd h (Nat.not_lt_zero _)

theorem mono {m : Nat} (h : Agree n p q) (hmn : m ≤ n) : Agree m p q :=
  fun c hc => h c (Nat.lt_of_lt_of_le hc hmn)

theorem bind (h : Agree n p q) (hp : p.Advances) (hf : ∀ a, Agree n (f a) (g a)) :
    Agree n (p >>= f) (q >>= g) := by
  intro c hc
  rw [bind_apply, bind_apply, ← h c hc]
  cases hr : (p c).result with
  | none => rfl
  | some r =>
    obtain ⟨a, d⟩ := r
    obtain ⟨text, hbehind⟩ := hp (show p.Reads c a d from hr)
    have hd : d.rest.length < n := Nat.lt_of_le_of_lt hbehind.length_le hc
    simp only [hf a d hd]

/-- What follows the same scanner. -/
theorem after (hp : p.Advances) (hf : ∀ a, Agree n (f a) (g a)) :
    Agree n (p >>= f) (p >>= g) := .bind (.refl n p) hp hf

/-- Behind a text that is not empty fewer characters are left. -/
theorem behind {text : String} {u v : Scanner β} (htext : text ≠ "") (h : Agree n u v) :
    Agree (n + 1) (exactly text >>= fun _ => u) (exactly text >>= fun _ => v) := by
  intro c hc
  rw [bind_apply, bind_apply]
  cases hr : (exactly text c).result with
  | none => rfl
  | some r =>
    obtain ⟨a, d⟩ := r
    have hbehind := behind_of_exactly (show (exactly text).Reads c a d from hr)
    have hpos : 0 < text.toList.length := by
      rw [List.length_pos_iff]
      exact fun hnil => htext (String.toList_eq_nil_iff.1 hnil)
    have hd : d.rest.length < n := by
      rw [hbehind.rest, List.length_append] at hc
      omega
    simp only [h d hd]

theorem orElse {p' q' : Scanner α} (h : Agree n p q) (h' : Agree n p' q') :
    Agree n (orElse p p') (orElse q q') := by
  intro c hc
  unfold Scanner.orElse
  rw [h c hc, h' c hc]

theorem rule (h : Agree n p q) : Agree n (rule p) (rule q) := by
  intro c hc
  unfold Scanner.rule
  rw [h c hc]

theorem optional (h : Agree n p q) (hp : p.Advances) :
    Agree n (optional p) (optional q) :=
  .orElse (.bind h hp fun _ => .refl n _) (.refl n _)

theorem further (h : Agree n p q) (hp : p.Advances) : ∀ room : List Char,
    Agree n (further p room) (further q room)
  | [] => .refl n _
  | _ :: room => .bind (.optional (.after .blanks fun _ => h) (.bind .blanks fun _ => hp))
      (.optional (.bind .blanks fun _ => hp)) fun
    | none => .refl n _
    | some _ => .bind (further h hp room) (.further hp room) fun _ => .refl n _

theorem many (h : Agree n p q) (hp : p.Advances) : Agree n (many p) (many q) := by
  intro c hc
  refine bind (optional h hp) (.optional hp) (fun x => ?_) c hc
  cases x with
  | none => exact .refl n _
  | some _ => exact .bind (further h hp c.rest) (.further hp c.rest) fun _ => .refl n _

theorem separated (h : Agree n p q) (hp : p.Advances) :
    Agree n (separated p) (separated q) :=
  .bind h hp fun _ => .after .blanks fun _ => .bind
    (.many (.after (.exactly ",") fun _ => .after .blanks fun _ => h)
      (.bind (.exactly ",") fun _ => .bind .blanks fun _ => hp))
    (.many (.bind (.exactly ",") fun _ => .bind .blanks fun _ => hp)) fun _ => .refl n _

end Agree

end Scanner

/-! ## Expressions -/

open Scanner.Agree

section

variable {n : Nat} {p q : Scanner Expr} (h : Agree n p q) (hp : p.Advances)

include h hp

omit h hp in
theorem agree_listed {α : Type} {p q : Scanner α} (h : Agree n p q) (hp : p.Advances) :
    Agree n (listed p) (listed q) :=
  .bind (.separated h hp) (.separated hp) fun _ => .refl n _

theorem agree_accessor : Agree (n + 1) (accessor p) (accessor q) := by
  refine .orElse (.refl _ _) <| .orElse ?_ <| .orElse ?_ <| .refl _ _
  · exact .rule <| .after .here fun _ => .behind (by decide) <| .after .blanks fun _ =>
      .bind h hp fun _ => .refl n _
  · exact .rule <| .after .here fun _ => .behind (by decide) <| .after .blanks fun _ =>
      .bind (.optional (.separated h hp) (.separated hp)) (.optional (.separated hp)) fun _ =>
        .refl n _

theorem agree_mapEntry : Agree n (mapEntry p) (mapEntry q) :=
  .rule <| .after (.orElse advances_identifier advances_stringLiteral) fun _ =>
    .after .blanks fun _ => .after (.exactly _) fun _ => .after .blanks fun _ =>
    .bind h hp fun _ => .refl n _

theorem agree_primary : Agree (n + 1) (primary p) (primary q) := by
  refine .after .here fun _ => .orElse (.refl _ _) <| .orElse ?_ <| .orElse ?_ <|
    .orElse (.refl _ _) <| .orElse ?_ <| .refl _ _
  · exact .rule <| .after .here fun _ => .behind (by decide) <| .after .blanks fun _ =>
      .bind (.optional (agree_listed h hp) (advances_listed hp)) (.optional (advances_listed hp))
        fun _ => .refl n _
  · have hentry := agree_mapEntry h hp
    have hadvances := advances_listed (advances_mapEntry hp)
    exact .rule <| .after .here fun _ => .behind (by decide) <| .after .blanks fun _ =>
      .bind (.optional (agree_listed hentry (advances_mapEntry hp)) hadvances)
        (.optional hadvances) fun _ => .refl n _
  · exact .behind (by decide) <| .after .blanks fun _ => .bind h hp fun _ => .refl n _

theorem agree_operand : Agree (n + 1) (operand p) (operand q) :=
  .rule <| .bind (agree_primary h hp) (advances_primary hp) fun _ => .after .blanks fun _ =>
    .bind (.many (agree_accessor h hp) (advances_accessor hp)) (.many (advances_accessor hp))
      fun _ => .refl _ _

theorem agree_link : Agree (n + 1) (link p) (link q) :=
  .after advances_binarySign fun _ => .after .blanks fun _ =>
    .after (.many advances_unarySign) fun _ => .after .blanks fun _ =>
    .bind (agree_operand h hp) (advances_operand hp) fun _ => .refl _ _

/-- Expressions over scanners that agree agree on one character more. -/
theorem agree_grouping : Agree (n + 1) (grouping p) (grouping q) := by
  have hlinks := Agree.many (agree_link h hp) (advances_link hp)
  refine .bind (.rule ?_) (.rule ?_) fun _ => .refl _ _
  · exact .after (.many advances_unarySign) fun _ => .after .blanks fun _ =>
      .bind (agree_operand h hp) (advances_operand hp) fun _ => .after .blanks fun _ =>
      .bind hlinks (.many (advances_link hp)) fun _ => .refl _ _
  · exact .bind (.many advances_unarySign) fun _ => .bind .blanks fun _ =>
      .bind (advances_operand hp) fun _ => .bind .blanks fun _ =>
      .bind (.many (advances_link hp)) fun _ => .pure _

end

/-- More levels than there are characters make no difference. -/
theorem agree_expressionWithin {n : Nat} {room room' : List Char} (h : n ≤ room.length + 1)
    (h' : n ≤ room'.length + 1) : Agree n (expressionWithin room) (expressionWithin room') := by
  induction n generalizing room room' with
  | zero => exact .zero _ _
  | succ n ih =>
    cases room with
    | nil =>
      obtain rfl : n = 0 := by simpa using h
      cases room' with
      | nil => exact .refl _ _
      | cons _ room' => exact agree_grouping (.zero _ _) .fail
    | cons _ room =>
      cases room' with
      | nil =>
        obtain rfl : n = 0 := by simpa using h'
        exact agree_grouping (.zero _ _) (advances_expressionWithin room)
      | cons _ room' =>
        rw [List.length_cons] at h h'
        exact agree_grouping (ih (Nat.le_of_succ_le_succ h) (Nat.le_of_succ_le_succ h'))
          (advances_expressionWithin room)

/-- Where there is room for all characters an expression is read. -/
theorem agree_expression (room : List Char) :
    Agree (room.length + 1) (expressionWithin room) expression := by
  intro c hc
  exact agree_expressionWithin (Nat.succ_le_of_lt hc) (Nat.le_refl _) c (Nat.lt_succ_self _)

/-- An expression is a chain of operands with expressions in them. -/
theorem expression_eq : expression = grouping expression := by
  funext c
  unfold expression
  cases hrest : c.rest with
  | nil =>
    have hagree : Agree 1 (grouping fail) (grouping expression) :=
      agree_grouping (.zero _ _) .fail
    exact hagree c (by rw [hrest]; exact Nat.zero_lt_one)
  | cons x room =>
    have hagree :
        Agree (room.length + 2) (grouping (expressionWithin room)) (grouping expression) :=
      agree_grouping (agree_expression room) (advances_expressionWithin room)
    exact hagree c (by rw [hrest, List.length_cons]; omega)

/-- An operand that stands alone is an operand with expressions in it. -/
theorem target_eq : target = operand expression := by
  funext c
  have hagree :
      Agree (c.rest.length + 2) (operand (expressionWithin c.rest)) (operand expression) :=
    agree_operand (agree_expression c.rest) (advances_expressionWithin c.rest)
  exact hagree c (by omega)

end TemplateEngine
