import TemplateEngine.Proofs.Printing.Lexemes
import TemplateEngine.Proofs.Printing.Trees

/-!
# Parentheses in sources

An opening parenthesis outside quoted text begins the arguments of a call or a group. So if there
are as many of them in the text of an expression as there are calls in the expression, nothing was
grouped by parentheses (`tallies_expression`), and then every node of the expression stands where
the levels of operators alone put it (`Expr.Bare`).
-/

namespace TemplateEngine

open Scanner

/-! ## Counting -/

/-- How many parentheses open outside quoted text, if it begins inside a text between these quotes,
or outside of any. -/
def openParens : Option Char → List Char → Nat
  | _, [] => 0
  | none, c :: rest =>
    if c = '"' ∨ c = '\'' then openParens (some c) rest
    else (if c = '(' then 1 else 0) + openParens none rest
  | some q, '\\' :: _ :: rest => openParens (some q) rest
  | some q, c :: rest => openParens (if c = q then none else some q) rest

/-- The text is outside quotes before and behind it, and `n` parentheses open in it. -/
def Counted (text : List Char) (n : Nat) : Prop :=
  ∀ rest, openParens none (text ++ rest) = n + openParens none rest

/-- The character neither quotes nor opens a parenthesis. -/
def isQuiet (c : Char) : Bool := c ≠ '"' && c ≠ '\'' && c ≠ '('

theorem counted_nil : Counted [] 0 := fun _ => (Nat.zero_add _).symm

theorem Counted.append {s t : List Char} {n m : Nat} (h : Counted s n) (k : Counted t m) :
    Counted (s ++ t) (n + m) := by
  intro rest
  rw [List.append_assoc, h, k, Nat.add_assoc]

theorem counted_of_isQuiet {text : List Char} (h : text.all isQuiet = true) : Counted text 0 := by
  intro rest
  induction text with
  | nil => exact (Nat.zero_add _).symm
  | cons c text ih =>
    rw [List.all_cons, Bool.and_eq_true] at h
    obtain ⟨hc, htext⟩ := h
    simp only [isQuiet, ne_eq, Bool.and_eq_true, decide_eq_true_eq] at hc
    obtain ⟨⟨hdouble, hsingle⟩, hparen⟩ := hc
    rw [List.cons_append, openParens, if_neg (by simp [hdouble, hsingle]), if_neg hparen, ih htext]
    omega

/-- Quoted text is passed over. -/
theorem openParens_quotedBody {q : Char} (hq : q ≠ '\\') (cs rest : List Char) :
    openParens (some q) (quotedBody q cs ++ q :: rest) = openParens none rest := by
  have hclose : openParens (some q) (q :: rest) = openParens none rest := by
    rw [openParens.eq_4 q q rest fun _ _ h => absurd h hq, if_pos rfl]
  fun_induction quotedBody q cs with
  | case1 => exact hclose
  | case2 c cs ih => rwa [List.cons_append, List.cons_append, openParens]
  | case3 => exact hclose
  | case4 c cs _ hc ih =>
    simp only [Bool.or_eq_true, decide_eq_true_eq, not_or] at hc
    rwa [List.cons_append, openParens.eq_4 _ _ _ fun _ _ h => absurd h hc.2, if_neg hc.1]

theorem openParens_eq_zero {quote : Option Char} {cs : List Char} (h : ∀ c ∈ cs, c ≠ '(') :
    openParens quote cs = 0 := by
  fun_induction openParens quote cs with
  | case1 => rfl
  | case2 c cs _ ih => exact ih (List.forall_mem_cons.1 h).2
  | case3 c cs _ ih => rw [if_neg (List.forall_mem_cons.1 h).1, ih (List.forall_mem_cons.1 h).2]
  | case4 q c cs ih => exact ih (List.forall_mem_cons.1 (List.forall_mem_cons.1 h).2).2
  | case5 q c cs _ ih => exact ih (List.forall_mem_cons.1 h).2

/-- Text without parentheses behind another text opens none, whether it is quoted or not. -/
theorem openParens_append {behind : List Char} (h : ∀ c ∈ behind, c ≠ '(')
    (quote : Option Char) (text : List Char) :
    openParens quote (text ++ behind) = openParens quote text := by
  fun_induction openParens quote text with
  | case1 => exact openParens_eq_zero h
  | case2 c cs hc ih => rw [List.cons_append, openParens, if_pos hc, ih]
  | case3 c cs hc ih => rw [List.cons_append, openParens, if_neg hc, ih]
  | case4 q c cs ih => rw [List.cons_append, List.cons_append, openParens, ih]
  | case5 q c cs hmark ih =>
    by_cases hc : c = '\\'
    · -- a backslash at the end takes the first character behind it
      subst hc
      obtain rfl : cs = [] := List.eq_nil_iff_forall_not_mem.2 fun x hx => by
        cases cs with
        | nil => cases hx
        | cons y cs => exact hmark y cs rfl rfl
      rw [openParens, openParens_eq_zero]
      exact List.forall_mem_cons.2 ⟨by decide, h⟩
    · rw [List.cons_append, openParens.eq_4 _ _ _ fun _ _ h => absurd h hc, ih]

theorem isQuiet_of_isWordChar {c : Char} (h : isWordChar c = true) : isQuiet c = true := by
  by_contra hquiet
  simp only [isQuiet, ne_eq, Bool.and_eq_true, decide_eq_true_eq, not_and_or, not_not] at hquiet
  obtain (rfl | rfl) | rfl := hquiet <;> revert h <;> decide

theorem isQuiet_of_isGap {c : Char} (h : isGap c = true) : isQuiet c = true := by
  simp only [isGap, Bool.or_eq_true, decide_eq_true_eq] at h
  obtain ((rfl | rfl) | rfl) | rfl := h <;> rfl

theorem counted_of_all {ok : Char → Bool} {text : List Char}
    (hok : ∀ c, ok c = true → isQuiet c = true) (h : text.all ok = true) : Counted text 0 :=
  counted_of_isQuiet (List.all_eq_true.2 fun c hc => hok c (List.all_eq_true.1 h c hc))

/-- How many parentheses open between two cursors. -/
def Opened (n : Nat) (c d : Cursor) : Prop := ∃ text, c.Behind text d ∧ Counted text n

theorem Opened.refl (c : Cursor) : Opened 0 c c := ⟨[], .refl c, counted_nil⟩

theorem Opened.of_isQuiet {c d : Cursor} {text : List Char} (h : c.Behind text d)
    (htext : text.all isQuiet = true) : Opened 0 c d := ⟨text, h, counted_of_isQuiet htext⟩

theorem Opened.of_gap {c d : Cursor} {gap : List Char} (h : c.Behind gap d)
    (hgap : gap.all isGap = true) : Opened 0 c d :=
  ⟨gap, h, counted_of_all (fun _ => isQuiet_of_isGap) hgap⟩

theorem Opened.trans {n m : Nat} {b c d : Cursor} (h : Opened n b c) (k : Opened m c d) :
    Opened (n + m) b d := by
  obtain ⟨s, hbc, hs⟩ := h
  obtain ⟨t, hcd, ht⟩ := k
  exact ⟨s ++ t, hbc.trans hcd, hs.append ht⟩

/-! ## Scanners that count -/

namespace Scanner

variable {α β : Type} {p q : Scanner α} {f : α → Scanner β} {S T : α → Nat → Prop}
  {R : β → Nat → Prop}

/-- Whatever the scanner reads suits the number of parentheses that open in its text. -/
def Tallies (S : α → Nat → Prop) (p : Scanner α) : Prop :=
  ∀ ⦃c : Cursor⦄ ⦃a : α⦄ ⦃d : Cursor⦄, p.Reads c a d → ∃ n, Opened n c d ∧ S a n

/-- No parentheses open in what the scanner reads. -/
def Quiet (p : Scanner α) : Prop := p.Tallies fun _ n => n = 0

namespace Tallies

protected theorem pure {a : α} (h : S a 0) : Tallies S (pure a) := by
  rintro c _ _ ⟨⟩
  exact ⟨0, .refl c, h⟩

protected theorem fail : Tallies S (fail : Scanner α) := nofun

theorem bind (hp : Tallies S p) (hf : ∀ a n, S a n → Tallies (fun b m => R b (n + m)) (f a)) :
    Tallies R (p >>= f) := by
  intro c b d h
  obtain ⟨a, e, ha, hb⟩ := reads_bind.1 h
  obtain ⟨n, hn, hS⟩ := hp ha
  obtain ⟨m, hm, hR⟩ := hf a n hS hb
  exact ⟨n + m, hn.trans hm, hR⟩

/-- Nothing opens in the first part. -/
theorem quiet (hp : Quiet p) (hf : ∀ a, Tallies R (f a)) : Tallies R (p >>= f) := by
  refine .bind hp ?_
  rintro a _ rfl c b d h
  obtain ⟨n, hn, hR⟩ := hf a h
  exact ⟨n, hn, by simpa using hR⟩

theorem mono (h : Tallies S p) (hST : ∀ a n, S a n → T a n) : Tallies T p := by
  intro c a d hreads
  obtain ⟨n, hn, hS⟩ := h hreads
  exact ⟨n, hn, hST a n hS⟩

theorem rule (h : Tallies S p) : Tallies S (rule p) := fun _ _ _ hreads => h (reads_rule.1 hreads)

theorem orElse (hp : Tallies S p) (hq : Tallies S q) : Tallies S (orElse p q) := by
  intro c a d h
  obtain h | ⟨-, h⟩ := reads_orElse.1 h
  · exact hp h
  · exact hq h

theorem firstOf {ps : List (Scanner α)} (h : ∀ p ∈ ps, Tallies S p) : Tallies S (firstOf ps) := by
  intro c a d hreads
  obtain ⟨p, hp, hreads⟩ := hreads.of_firstOf
  exact h p hp hreads

theorem here {f : Position → Scanner β} (h : ∀ p, Tallies R (f p)) : Tallies R (here >>= f) := by
  intro c b d hreads
  obtain ⟨p, _, hhere, hf⟩ := reads_bind.1 hreads
  cases hhere
  exact h _ hf

theorem optional {R : Option α → Nat → Prop} (hp : Tallies S p) (hnone : R none 0)
    (hsome : ∀ a n, S a n → R (some a) n) : Tallies R (optional p) :=
  .orElse (.bind hp fun a n ha => .pure (hsome a n ha)) (.pure hnone)

/-- Many values, which suit the sum of what they suit one by one. -/
theorem many {R : List α → Nat → Prop} (hp : Tallies S p) (hnil : R [] 0)
    (hcons : ∀ a as n m, S a n → R as m → R (a :: as) (n + m)) : Tallies R (many p) := by
  intro c as d h
  have hruns := h.runs_of_many
  clear h
  induction hruns with
  | nil c => exact ⟨0, .refl c, hnil⟩
  | cons hgap ha _ ih =>
    obtain ⟨gap, hall, hbehind⟩ := hgap
    obtain ⟨n, hn, hS⟩ := hp ha
    obtain ⟨m, hm, hR⟩ := ih
    have hopened : Opened (0 + n) _ _ := .trans (.of_gap hbehind hall) hn
    rw [Nat.zero_add] at hopened
    exact ⟨n + m, hopened.trans hm, hcons _ _ n m hS hR⟩

end Tallies

end Scanner

/-! ## Lexemes -/

theorem quiet_exactly {text : String} (h : text.toList.all isQuiet = true) :
    (exactly text).Quiet :=
  fun _ _ _ hreads => ⟨0, .of_isQuiet (behind_of_exactly hreads) h, rfl⟩

/-- One parenthesis opens in an opening parenthesis. -/
theorem tallies_opening : (exactly "(").Tallies fun _ n => n = 1 :=
  fun _ _ _ hreads => ⟨1, ⟨_, behind_of_exactly hreads, fun _ => rfl⟩, rfl⟩

theorem quiet_takeWhile {ok : Char → Bool} (hok : ∀ c, ok c = true → isQuiet c = true) :
    (takeWhile ok).Quiet := by
  intro c text d hreads
  obtain ⟨hbehind, hall⟩ := behind_of_takeWhile hreads
  exact ⟨0, ⟨text, hbehind, counted_of_all hok hall⟩, rfl⟩

theorem quiet_blanks : blanks.Quiet :=
  .quiet (quiet_takeWhile fun _ => isQuiet_of_isGap) fun _ => .pure rfl

theorem tallies_wordThat (wanted : String → Bool) : (wordThat wanted).Tallies fun w n =>
    n = 0 ∧ wanted w = true ∧ w.toList.all isWordChar = true := by
  intro c w d hreads
  obtain ⟨hbehind, hwanted, -⟩ := behind_of_wordThat hreads
  have hall : w.toList.all isWordChar = true := by
    unfold Reads wordThat at hreads
    dsimp only at hreads
    split at hreads
    · cases hreads
      rw [String.toList_ofList]
      exact List.all_takeWhile
    · cases hreads
  exact ⟨0, ⟨_, hbehind, counted_of_all (fun _ => isQuiet_of_isWordChar) hall⟩, rfl, hwanted, hall⟩

theorem quiet_wordThat (wanted : String → Bool) : (wordThat wanted).Quiet :=
  (tallies_wordThat wanted).mono fun _ _ h => h.1

theorem tallies_identifier : identifier.Tallies fun w n => n = 0 ∧ IsIdentifier w :=
  .rule (tallies_wordThat _)

theorem quiet_digits : digits.Quiet := by
  refine .quiet (quiet_takeWhile fun c hc => isQuiet_of_isWordChar ?_) fun ds => ?_
  · simp [isWordChar, Char.isAlphanum, hc]
  · split
    · exact .fail
    · exact .pure rfl

theorem quiet_quotedBy {q : Char} (hq : q = '"' ∨ q = '\'') : (quotedBy q).Quiet := by
  intro c s d h
  have hslash : q ≠ '\\' := by
    obtain rfl | rfl := hq <;> decide
  unfold Reads quotedBy at h
  split at h
  · cases h
  · next x rest hrest =>
    split at h
    · next hx =>
      subst hx
      dsimp only at h
      split at h
      · next hclosed =>
        cases h
        have hpass := openParens_quotedBody hslash rest
        have hbody := quotedBody_begins x rest
        generalize quotedBody x rest = body at hbody hclosed hpass ⊢
        obtain ⟨after, rfl⟩ := hbody
        rw [List.drop_left] at hclosed
        obtain ⟨more, rfl⟩ := List.head?_eq_some_iff.1 hclosed
        refine ⟨0, ⟨_, Cursor.behind_drop ⟨more, by simp [hrest]⟩, fun tail => ?_⟩, rfl⟩
        have htext : x :: body ++ [x] ++ tail = x :: (body ++ x :: tail) := by simp
        rw [htext, openParens, if_pos hq, hpass, Nat.zero_add]
      · cases h
    · cases h

theorem quiet_stringLiteral : stringLiteral.Quiet :=
  .rule (.orElse (quiet_quotedBy (.inl rfl)) (quiet_quotedBy (.inr rfl)))

/-- An integer is written without a sign. -/
def Literal.Unsigned : Literal → Prop
  | .int n => 0 ≤ n
  | _ => True

theorem tallies_literal : literal.Tallies fun value n => n = 0 ∧ value.Unsigned := by
  refine .firstOf ?_
  simp only [List.forall_mem_cons, List.not_mem_nil, false_imp_iff, implies_true, and_true]
  refine ⟨?_, ?_, ?_, ?_, ?_⟩
  · exact .rule <| .quiet quiet_digits fun _ => .quiet (quiet_exactly (by decide)) fun _ =>
      .quiet quiet_digits fun _ => .pure ⟨rfl, trivial⟩
  · exact .rule <| .quiet quiet_digits fun ds => .pure ⟨rfl, Int.natCast_nonneg _⟩
  · exact .quiet quiet_stringLiteral fun _ => .pure ⟨rfl, trivial⟩
  · exact .quiet (.rule (quiet_wordThat _)) fun _ => .pure ⟨rfl, trivial⟩
  · exact .quiet (.rule (quiet_wordThat _)) fun _ => .pure ⟨rfl, trivial⟩

theorem quiet_sign {α : Type} (op : α) {text : String} (h : text.toList.all isQuiet = true) :
    (sign op text).Quiet :=
  .rule <| .quiet (quiet_exactly h) fun _ => .pure rfl

theorem quiet_wordSign {α : Type} (op : α) (text : String) : (wordSign op text).Quiet :=
  .rule <| .quiet (quiet_wordThat _) fun _ => .pure rfl

theorem quiet_remSign : remSign.Quiet := by
  refine .rule fun c a d h => ?_
  unfold Reads at h
  dsimp only at h
  split at h
  · cases h
  · have hpercent : (exactly "%").Quiet := quiet_exactly (by decide)
    exact Tallies.quiet (R := fun _ n => n = 0) (f := fun _ => pure BinaryOp.rem) hpercent
      (fun _ => .pure rfl) h

theorem quiet_unarySign : unarySign.Quiet := by
  refine .here fun _ => .quiet (.firstOf ?_) fun _ => .pure rfl
  simp only [List.forall_mem_cons, List.not_mem_nil, false_imp_iff, implies_true, and_true]
  exact ⟨quiet_wordSign _ _, quiet_sign _ (by decide)⟩

theorem quiet_binarySign : binarySign.Quiet := by
  refine .here fun _ => .quiet (.firstOf ?_) fun _ => .pure rfl
  simp only [List.forall_mem_cons, List.not_mem_nil, false_imp_iff, implies_true, and_true]
  exact ⟨quiet_wordSign _ _, quiet_wordSign _ _, quiet_sign _ (by decide),
    quiet_sign _ (by decide), quiet_sign _ (by decide), quiet_sign _ (by decide),
    quiet_sign _ (by decide), quiet_sign _ (by decide), quiet_sign _ (by decide),
    quiet_sign _ (by decide), quiet_sign _ (by decide), quiet_sign _ (by decide),
    quiet_sign _ (by decide), quiet_remSign⟩

end TemplateEngine
