import TemplateEngine.Source.Piece

/-!
# What scanners take

A scanner that reads leaves its cursor behind the text that it took, and that text stood where it
began (`Cursor.Behind`). Each way to put scanners together hands this on (`Scanner.Advances`), and
so every rule of the grammar has it, expressions at every depth included (`advances_expression`).
-/

namespace TemplateEngine

namespace Cursor

/-- The second cursor stands behind a text that stands at the first one. -/
structure Behind (c : Cursor) (text : List Char) (d : Cursor) : Prop where
  rest : c.rest = text ++ d.rest
  offset : d.offset = c.offset + text.length
  position : d.position = c.position.after text

variable {c d e : Cursor} {s t : List Char}

theorem Behind.refl (c : Cursor) : c.Behind [] c := ⟨rfl, rfl, rfl⟩

theorem Behind.trans (h : c.Behind s d) (k : d.Behind t e) : c.Behind (s ++ t) e where
  rest := by rw [h.rest, k.rest, List.append_assoc]
  offset := by rw [k.offset, h.offset, List.length_append, Nat.add_assoc]
  position := by rw [k.position, h.position, Position.after_append]

theorem behind_drop (h : s <+: c.rest) : c.Behind s (c.drop s) := by
  obtain ⟨rest, hrest⟩ := h
  refine ⟨?_, rfl, rfl⟩
  unfold drop
  rw [← hrest, List.drop_left]

end Cursor

namespace Scanner

variable {α β : Type} {p q : Scanner α} {f : α → Scanner β} {a : α} {b : β} {c d : Cursor}

/-! ## Results -/

/-- At the first cursor the scanner reads a value, and it leaves the second. -/
def Reads (p : Scanner α) (c : Cursor) (a : α) (d : Cursor) : Prop :=
  (p c).result = some (a, d)

theorem reads_bind :
    (p >>= f).Reads c b d ↔ ∃ a e, p.Reads c a e ∧ (f a).Reads e b d := by
  unfold Reads
  rw [result_bind, Option.bind_eq_some_iff, Prod.exists]

theorem reads_orElse :
    (orElse p q).Reads c a d ↔ p.Reads c a d ∨ (p c).result = none ∧ q.Reads c a d := by
  unfold Reads orElse
  rcases p c with ⟨_ | r, reach⟩
  · simp
  · simp

theorem reads_rule : (rule p).Reads c a d ↔ p.Reads c a d := by
  unfold Reads rule
  rcases p c with ⟨_ | r, reach⟩ <;> rfl

/-- One of the alternatives reads. -/
theorem Reads.of_firstOf {ps : List (Scanner α)} (h : (firstOf ps).Reads c a d) :
    ∃ p ∈ ps, p.Reads c a d := by
  induction ps with
  | nil => cases h
  | cons p rest ih =>
    obtain hp | ⟨-, hrest⟩ := reads_orElse.1 h
    · exact ⟨p, List.mem_cons_self, hp⟩
    · obtain ⟨q, hq, hreads⟩ := ih hrest
      exact ⟨q, List.mem_cons_of_mem p hq, hreads⟩

/-- What may be left out is there or nothing is read. -/
theorem Reads.of_optional {x : Option α} (h : (optional p).Reads c x d) :
    (∃ a, x = some a ∧ p.Reads c a d) ∨ x = none ∧ d = c := by
  obtain h | ⟨-, h⟩ := reads_orElse.1 h
  · obtain ⟨a, e, hp, hpure⟩ := reads_bind.1 h
    cases hpure
    exact .inl ⟨a, rfl, hp⟩
  · cases h
    exact .inr ⟨rfl, rfl⟩

/-! ## Texts -/

theorem behind_of_exactly {text : String} {u : Unit} (h : (exactly text).Reads c u d) :
    c.Behind text.toList d := by
  unfold Reads exactly at h
  split at h
  · next hprefix =>
    cases h
    exact Cursor.behind_drop (List.isPrefixOf_iff_prefix.1 hprefix)
  · cases h

theorem behind_of_takeWhile {ok : Char → Bool} {text : List Char}
    (h : (takeWhile ok).Reads c text d) : c.Behind text d ∧ text.all ok = true := by
  cases h
  exact ⟨Cursor.behind_drop (List.takeWhile_prefix ok), List.all_takeWhile⟩

/-- What is skipped is a gap. -/
theorem behind_of_blanks {u : Unit} (h : blanks.Reads c u d) :
    ∃ gap, gap.all isGap = true ∧ c.Behind gap d := by
  obtain ⟨gap, e, hgap, hpure⟩ := reads_bind.1 h
  cases hpure
  obtain ⟨hbehind, hall⟩ := behind_of_takeWhile hgap
  exact ⟨gap, hall, hbehind⟩

/-! ## Advancing -/

/-- Whatever the scanner reads, it stops behind a text that stands where it began. -/
def Advances (p : Scanner α) : Prop :=
  ∀ ⦃c : Cursor⦄ ⦃a : α⦄ ⦃d : Cursor⦄, p.Reads c a d → ∃ text, c.Behind text d

namespace Advances

protected theorem pure (b : β) : (pure b : Scanner β).Advances := by
  rintro c _ _ ⟨⟩
  exact ⟨[], .refl c⟩

theorem bind (hp : p.Advances) (hf : ∀ a, (f a).Advances) : (p >>= f).Advances := by
  intro c b d h
  obtain ⟨a, e, ha, hb⟩ := reads_bind.1 h
  obtain ⟨s, hs⟩ := hp ha
  obtain ⟨t, ht⟩ := hf a hb
  exact ⟨s ++ t, hs.trans ht⟩

protected theorem fail : (fail : Scanner α).Advances := nofun

theorem orElse (hp : p.Advances) (hq : q.Advances) : (orElse p q).Advances := by
  intro c a d h
  obtain h | ⟨-, h⟩ := reads_orElse.1 h
  · exact hp h
  · exact hq h

theorem firstOf {ps : List (Scanner α)} (h : ∀ p ∈ ps, p.Advances) : (firstOf ps).Advances := by
  intro c a d hreads
  obtain ⟨p, hp, hreads⟩ := hreads.of_firstOf
  exact h p hp hreads

theorem rule (hp : p.Advances) : (rule p).Advances := fun _ _ _ h => hp (reads_rule.1 h)

theorem optional (hp : p.Advances) : (optional p).Advances :=
  .orElse (.bind hp fun _ => .pure _) (.pure _)

/-- A scanner may depend on the cursor that it starts from. -/
theorem atCursor {p : Cursor → Scanner α} (h : ∀ c, (p c).Advances) :
    Advances fun c => p c c := by
  intro c a d hreads
  exact h c hreads

theorem here : here.Advances := by
  rintro c _ _ ⟨⟩
  exact ⟨[], .refl c⟩

theorem exactly (text : String) : (exactly text).Advances :=
  fun _ _ _ h => ⟨_, behind_of_exactly h⟩

theorem takeWhile (ok : Char → Bool) : (takeWhile ok).Advances :=
  fun _ _ _ h => ⟨_, (behind_of_takeWhile h).1⟩

theorem blanks : blanks.Advances := .bind (takeWhile _) fun _ => .pure _

theorem further (hp : p.Advances) : ∀ room : List Char, (further p room).Advances
  | [] => .pure _
  | _ :: room => .bind (.optional (.bind blanks fun _ => hp)) fun
    | none => .pure _
    | some _ => .bind (further hp room) fun _ => .pure _

theorem many (hp : p.Advances) : (many p).Advances := by
  intro c _ _ h
  refine bind (optional hp) (fun x => ?_) h
  cases x with
  | none => exact .pure _
  | some _ => exact .bind (further hp c.rest) fun _ => .pure _

theorem separated (hp : p.Advances) : (separated p).Advances :=
  .bind hp fun _ => .bind blanks fun _ =>
    .bind (many (.bind (exactly ",") fun _ => .bind blanks fun _ => hp)) fun _ => .pure _

end Advances

end Scanner

/-! ## Words, numbers and quoted text -/

open Scanner Scanner.Advances

/-- What is behind the longest text of a class does not go on with the class. -/
theorem head?_drop_takeWhile (ok : Char → Bool) (cs : List Char) :
    (cs.drop (cs.takeWhile ok).length).head?.all (fun x => !ok x) = true := by
  have hdrop : cs.drop (cs.takeWhile ok).length = cs.dropWhile ok := by
    calc cs.drop (cs.takeWhile ok).length
        = (cs.takeWhile ok ++ cs.dropWhile ok).drop (cs.takeWhile ok).length := by
          rw [List.takeWhile_append_dropWhile]
      _ = cs.dropWhile ok := List.drop_left
  have hhead := List.head?_dropWhile_not ok cs
  rw [hdrop]
  cases h : (cs.dropWhile ok).head? with
  | none => rfl
  | some x =>
    rw [h] at hhead
    simpa using hhead

theorem isWordChar_of_isNameStart {x : Char} (h : isNameStart x = true) : isWordChar x = true := by
  simp only [isNameStart, isWordChar, Char.isAlphanum, Bool.or_eq_true] at h ⊢
  exact h.imp_left .inl

theorem behind_of_wordThat {wanted : String → Bool} {w : String} {c d : Cursor}
    (h : (wordThat wanted).Reads c w d) : c.Behind w.toList d ∧ wanted w = true ∧
      d.rest.head?.all (fun x => !isWordChar x) = true := by
  unfold Reads wordThat at h
  dsimp only at h
  split at h
  · next hwanted =>
    cases h
    rw [String.toList_ofList]
    exact ⟨Cursor.behind_drop (List.takeWhile_prefix _), hwanted, head?_drop_takeWhile _ _⟩
  · cases h

theorem advances_wordThat (wanted : String → Bool) : (wordThat wanted).Advances :=
  fun _ _ _ h => ⟨_, (behind_of_wordThat h).1⟩

theorem advances_identifier : identifier.Advances := .rule (advances_wordThat _)

theorem advances_digits : digits.Advances := by
  refine .bind (.takeWhile _) fun ds => ?_
  split
  · exact .fail
  · exact .pure _

theorem quotedBody_begins (quote : Char) (cs : List Char) : quotedBody quote cs <+: cs := by
  fun_induction quotedBody quote cs with
  | case1 => exact List.prefix_refl _
  | case2 c rest ih => simpa using ih
  | case3 => exact List.nil_prefix
  | case4 c rest _ _ ih => simpa using ih

theorem advances_quotedBy (quote : Char) : (quotedBy quote).Advances := by
  intro c s d h
  unfold Reads quotedBy at h
  split at h
  · cases h
  · next q rest hrest =>
    split at h
    · dsimp only at h
      split at h
      · next hclosed =>
        cases h
        have hbody := quotedBody_begins quote rest
        generalize quotedBody quote rest = body at hbody hclosed ⊢
        obtain ⟨after, rfl⟩ := hbody
        rw [List.drop_left] at hclosed
        obtain ⟨more, rfl⟩ := List.head?_eq_some_iff.1 hclosed
        exact ⟨_, Cursor.behind_drop ⟨more, by simp [hrest]⟩⟩
      · cases h
    · cases h

theorem advances_stringLiteral : stringLiteral.Advances :=
  .rule (.orElse (advances_quotedBy _) (advances_quotedBy _))

theorem advances_floatLiteral : floatLiteral.Advances :=
  .rule <| .bind advances_digits fun _ => .bind (.exactly _) fun _ =>
    .bind advances_digits fun _ => .pure _

theorem advances_intLiteral : intLiteral.Advances :=
  .rule <| .bind advances_digits fun _ => .pure _

theorem advances_literal : literal.Advances := by
  refine .firstOf ?_
  simp only [List.forall_mem_cons, List.not_mem_nil, false_imp_iff, implies_true, and_true]
  exact ⟨advances_floatLiteral, advances_intLiteral,
    .bind advances_stringLiteral fun _ => .pure _,
    .bind (.rule (advances_wordThat _)) fun _ => .pure _,
    .bind (.rule (advances_wordThat _)) fun _ => .pure _⟩

/-! ## Expressions -/

theorem advances_sign {α : Type} (op : α) (text : String) : (sign op text).Advances :=
  .rule <| .bind (.exactly text) fun _ => .pure _

theorem advances_wordSign {α : Type} (op : α) (text : String) : (wordSign op text).Advances :=
  .rule <| .bind (advances_wordThat _) fun _ => .pure _

theorem advances_remSign : remSign.Advances := by
  refine .rule fun c a d h => ?_
  unfold Reads at h
  dsimp only at h
  split at h
  · cases h
  · exact Advances.bind (.exactly "%") (fun _ => .pure _) h

theorem advances_unarySign : unarySign.Advances := by
  refine .bind .here fun _ => .bind (.firstOf ?_) fun _ => .pure _
  simp only [List.forall_mem_cons, List.not_mem_nil, false_imp_iff, implies_true, and_true]
  exact ⟨advances_wordSign _ _, advances_sign _ _⟩

theorem advances_binarySign : binarySign.Advances := by
  refine .bind .here fun _ => .bind (.firstOf ?_) fun _ => .pure _
  simp only [List.forall_mem_cons, List.not_mem_nil, false_imp_iff, implies_true,
    advances_wordSign, advances_sign, advances_remSign, and_self]

section

variable {deeper : Scanner Expr} (h : deeper.Advances)

include h

theorem advances_accessor : (accessor deeper).Advances := by
  refine .firstOf ?_
  simp only [List.forall_mem_cons, List.not_mem_nil, false_imp_iff, implies_true, and_true]
  refine ⟨?_, ?_, ?_⟩
  · exact .rule <| .bind .here fun _ => .bind (.exactly _) fun _ => .bind .blanks fun _ =>
      .bind advances_identifier fun _ => .pure _
  · exact .rule <| .bind .here fun _ => .bind (.exactly _) fun _ => .bind .blanks fun _ =>
      .bind h fun _ => .bind .blanks fun _ => .bind (.exactly _) fun _ => .pure _
  · exact .rule <| .bind .here fun _ => .bind (.exactly _) fun _ => .bind .blanks fun _ =>
      .bind (.optional (.separated h)) fun _ => .bind .blanks fun _ =>
      .bind (.exactly _) fun _ => .pure _

omit h in
theorem advances_listed {α : Type} {item : Scanner α} (hitem : item.Advances) :
    (listed item).Advances :=
  .bind (.separated hitem) fun _ => .bind .blanks fun _ => .bind (.optional (.exactly _)) fun _ =>
    .pure _

theorem advances_mapEntry : (mapEntry deeper).Advances :=
  .rule <| .bind (.orElse advances_identifier advances_stringLiteral) fun _ =>
    .bind .blanks fun _ => .bind (.exactly _) fun _ => .bind .blanks fun _ => .bind h fun _ =>
    .pure _

theorem advances_primary : (primary deeper).Advances := by
  refine .bind .here fun p => .firstOf ?_
  simp only [List.forall_mem_cons, List.not_mem_nil, false_imp_iff, implies_true, and_true]
  refine ⟨.bind advances_literal fun _ => .pure _, ?_, ?_,
    .bind advances_identifier fun _ => .pure _, ?_⟩
  · exact .rule <| .bind .here fun _ => .bind (.exactly _) fun _ => .bind .blanks fun _ =>
      .bind (.optional (advances_listed h)) fun _ => .bind .blanks fun _ =>
      .bind (.exactly _) fun _ => .pure _
  · exact .rule <| .bind .here fun _ => .bind (.exactly _) fun _ => .bind .blanks fun _ =>
      .bind (.optional (advances_listed (advances_mapEntry h))) fun _ => .bind .blanks fun _ =>
      .bind (.exactly _) fun _ => .pure _
  · exact .bind (.exactly _) fun _ => .bind .blanks fun _ => .bind h fun _ =>
      .bind .blanks fun _ => .bind (.exactly _) fun _ => .pure _

theorem advances_operand : (operand deeper).Advances :=
  .rule <| .bind (advances_primary h) fun _ => .bind .blanks fun _ =>
    .bind (.many (advances_accessor h)) fun _ => .pure _

theorem advances_link : (link deeper).Advances :=
  .bind advances_binarySign fun _ => .bind .blanks fun _ =>
    .bind (.many advances_unarySign) fun _ => .bind .blanks fun _ =>
    .bind (advances_operand h) fun _ => .pure _

theorem advances_grouping : (grouping deeper).Advances := by
  refine .bind (.rule ?_) fun _ => .pure _
  exact .bind (.many advances_unarySign) fun _ => .bind .blanks fun _ =>
    .bind (advances_operand h) fun _ => .bind .blanks fun _ =>
    .bind (.many (advances_link h)) fun _ => .pure _

end

/-- Expressions, by induction on the levels that are allowed. -/
theorem advances_expressionWithin (room : List Char) : (expressionWithin room).Advances := by
  induction room with
  | nil => exact advances_grouping .fail
  | cons _ room ih => exact advances_grouping ih

theorem advances_expression : expression.Advances :=
  .atCursor (p := fun c => expressionWithin c.rest) fun c => advances_expressionWithin c.rest

theorem advances_target : target.Advances :=
  .atCursor (p := fun c => operand (expressionWithin c.rest)) fun c =>
    advances_operand (advances_expressionWithin c.rest)

end TemplateEngine
