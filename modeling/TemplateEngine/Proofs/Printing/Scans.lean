import Mathlib.Data.List.Forall2
import TemplateEngine.Proofs.Spelling.Cursors

/-!
# What scanners read from a rest

Whether a scanner reads depends on nothing but the characters that are left, and so does what is
left behind it (`Scanner.Scans`); only the positions in its value depend on where it stands. There
is one rule for each way to put scanners together. Some rules of the grammar take the gap behind
them and some do not, so what is left is mostly told up to a gap (`Scanner.Reaches`).
-/

namespace TemplateEngine

namespace Scanner

variable {α β : Type} {p q : Scanner α} {f : α → Scanner β} {cs rest : List Char}
  {P : α → List Char → Prop} {R : β → List Char → Prop}

/-- Where these characters are left the scanner reads a value, and the value and what is then left
have the property. -/
def Scans (p : Scanner α) (cs : List Char) (P : α → List Char → Prop) : Prop :=
  ∀ c : Cursor, c.rest = cs → ∃ a d, p.Reads c a d ∧ P a d.rest

/-- Where these characters are left the scanner fails. -/
def Fails (p : Scanner α) (cs : List Char) : Prop :=
  ∀ c : Cursor, c.rest = cs → (p c).result = none

/-! ## Reading -/

namespace Scans

protected theorem pure {a : α} (h : P a cs) : Scans (pure a) cs P := by
  rintro c rfl
  exact ⟨a, c, rfl, h⟩

theorem mono {Q : α → List Char → Prop} (h : Scans p cs P) (hPQ : ∀ a r, P a r → Q a r) :
    Scans p cs Q := by
  intro c hc
  obtain ⟨a, d, hreads, ha⟩ := h c hc
  exact ⟨a, d, hreads, hPQ a _ ha⟩

/-- A scanner may depend on the cursor that it starts from. -/
theorem atCursor {p : Cursor → Scanner α} (h : ∀ c, c.rest = cs → Scans (p c) cs P) :
    Scans (fun c => p c c) cs P :=
  fun c hc => h c hc c hc

theorem bind (h : Scans p cs P) (hf : ∀ a r, P a r → Scans (f a) r R) :
    Scans (p >>= f) cs R := by
  intro c hc
  obtain ⟨a, e, hp, ha⟩ := h c hc
  obtain ⟨b, d, hfa, hb⟩ := hf a e.rest ha e rfl
  exact ⟨b, d, reads_bind.2 ⟨a, e, hp, hfa⟩, hb⟩

theorem rule (h : Scans p cs P) : Scans (rule p) cs P := by
  intro c hc
  obtain ⟨a, d, hp, ha⟩ := h c hc
  exact ⟨a, d, reads_rule.2 hp, ha⟩

theorem orElse_left (h : Scans p cs P) : Scans (orElse p q) cs P := by
  intro c hc
  obtain ⟨a, d, hp, ha⟩ := h c hc
  exact ⟨a, d, reads_orElse.2 (.inl hp), ha⟩

theorem orElse_right (hp : Fails p cs) (h : Scans q cs P) : Scans (orElse p q) cs P := by
  intro c hc
  obtain ⟨a, d, hq, ha⟩ := h c hc
  exact ⟨a, d, reads_orElse.2 (.inr ⟨hp c hc, hq⟩), ha⟩

/-- The first alternative that does not fail reads. -/
theorem firstOf (before : List (Scanner α)) {after : List (Scanner α)}
    (hbefore : ∀ q ∈ before, Fails q cs) (h : Scans p cs P) :
    Scans (firstOf (before ++ p :: after)) cs P := by
  induction before with
  | nil => exact .orElse_left h
  | cons q before ih =>
    obtain ⟨hq, hbefore⟩ := List.forall_mem_cons.1 hbefore
    exact .orElse_right hq (ih hbefore)

theorem optional_some (h : Scans p cs P) :
    Scans (optional p) cs fun x r => ∃ a, x = some a ∧ P a r :=
  .orElse_left <| .bind h fun a _ ha => .pure ⟨a, rfl, ha⟩

theorem here {f : Position → Scanner β} (h : ∀ p, Scans (f p) cs R) : Scans (here >>= f) cs R := by
  intro c hc
  obtain ⟨b, d, hfa, hb⟩ := h c.position c hc
  exact ⟨b, d, reads_bind.2 ⟨_, c, rfl, hfa⟩, hb⟩

theorem exactly (text : String) (rest : List Char) :
    Scans (exactly text) (text.toList ++ rest) fun _ r => r = rest := by
  intro c hc
  refine ⟨(), c.drop text.toList, ?_, ?_⟩
  · unfold Reads Scanner.exactly
    rw [if_pos]
    rw [List.isPrefixOf_iff_prefix, hc]
    exact List.prefix_append _ _
  · unfold Cursor.drop
    rw [hc, List.drop_left]

theorem takeWhile (ok : Char → Bool) :
    Scans (takeWhile ok) cs fun text r => text = cs.takeWhile ok ∧ r = cs.dropWhile ok := by
  rintro c rfl
  refine ⟨_, _, rfl, rfl, ?_⟩
  unfold Cursor.drop
  calc c.rest.drop (c.rest.takeWhile ok).length
      = (c.rest.takeWhile ok ++ c.rest.dropWhile ok).drop (c.rest.takeWhile ok).length := by
        rw [List.takeWhile_append_dropWhile]
    _ = c.rest.dropWhile ok := List.drop_left

end Scans

/-! ## Failing -/

namespace Fails

protected theorem fail : Fails (fail : Scanner α) cs := fun _ _ => rfl

theorem bind (h : Fails p cs) : Fails (p >>= f) cs := by
  intro c hc
  rw [result_bind, h c hc]
  rfl

/-- The first part reads and the next one fails. -/
theorem after (h : Scans p cs P) (hf : ∀ a r, P a r → Fails (f a) r) : Fails (p >>= f) cs := by
  intro c hc
  obtain ⟨a, e, hp, ha⟩ := h c hc
  rw [result_bind, hp]
  exact hf a e.rest ha e rfl

theorem here {f : Position → Scanner β} (h : ∀ p, Fails (f p) cs) : Fails (here >>= f) cs :=
  .after (P := fun _ r => r = cs) (by rintro c rfl; exact ⟨_, c, rfl, rfl⟩) fun p _ hr => hr ▸ h p

theorem rule (h : Fails p cs) : Fails (rule p) cs := by
  intro c hc
  cases hr : (Scanner.rule p c).result with
  | none => rfl
  | some r =>
    have hp := reads_rule.1 (show (Scanner.rule p).Reads c r.1 r.2 from hr)
    rw [Reads, h c hc] at hp
    cases hp

theorem orElse (hp : Fails p cs) (hq : Fails q cs) : Fails (orElse p q) cs := by
  intro c hc
  cases hr : (Scanner.orElse p q c).result with
  | none => rfl
  | some r =>
    obtain h | ⟨-, h⟩ := reads_orElse.1 (show (Scanner.orElse p q).Reads c r.1 r.2 from hr)
    · rw [Reads, hp c hc] at h
      cases h
    · rw [Reads, hq c hc] at h
      cases h

theorem firstOf {ps : List (Scanner α)} (h : ∀ p ∈ ps, Fails p cs) : Fails (firstOf ps) cs := by
  induction ps with
  | nil => exact .fail
  | cons p ps ih =>
    obtain ⟨hp, hps⟩ := List.forall_mem_cons.1 h
    exact .orElse hp (ih hps)

theorem exactly {text : String} (h : text.toList.isPrefixOf cs = false) :
    Fails (exactly text) cs := by
  rintro c rfl
  unfold Scanner.exactly
  rw [h]
  rfl

end Fails

theorem Scans.optional_none (h : Fails p cs) :
    Scans (optional p) cs fun x r => x = none ∧ r = cs :=
  .orElse_right (.bind h) (.pure ⟨rfl, rfl⟩)

/-! ## Gaps -/

/-- What is left behind a gap. -/
def skipGap (cs : List Char) : List Char := cs.dropWhile isGap

theorem skipGap_skipGap (cs : List Char) : skipGap (skipGap cs) = skipGap cs := by
  induction cs with
  | nil => rfl
  | cons c cs ih =>
    cases h : isGap c with
    | true => simpa only [skipGap, List.dropWhile_cons, h, if_true] using ih
    | false => simp [skipGap, h]

theorem length_skipGap_le (cs : List Char) : (skipGap cs).length ≤ cs.length :=
  (List.dropWhile_sublist _).length_le

/-- No gap begins here. -/
theorem skipGap_cons {c : Char} (h : isGap c = false) (cs : List Char) :
    skipGap (c :: cs) = c :: cs := by
  rw [skipGap, List.dropWhile_cons_of_neg (by rw [h]; exact Bool.false_ne_true)]

theorem scans_blanks : Scans blanks cs fun _ r => r = skipGap cs :=
  .bind (.takeWhile isGap) fun _ _ h => .pure h.2

/-- Behind a gap the next part reads. -/
theorem Scans.blanks {p : Scanner β} (h : Scans p (skipGap cs) R) :
    Scans (blanks >>= fun _ => p) cs R :=
  .bind scans_blanks fun _ _ hr => hr ▸ h

/-- Behind a gap the next part fails. -/
theorem Fails.blanks {p : Scanner β} (h : Fails p (skipGap cs)) :
    Fails (blanks >>= fun _ => p) cs :=
  .after scans_blanks fun _ _ hr => hr ▸ h

/-- Behind a text the next part reads. -/
theorem Scans.text {text : String} {p : Scanner β} (h : Scans p rest R) :
    Scans (Scanner.exactly text >>= fun _ => p) (text.toList ++ rest) R :=
  .bind (.exactly text rest) fun _ _ hr => hr ▸ h

/-- Behind a single character the next part reads. -/
theorem Scans.char {c : Char} {text : String} {p : Scanner β} (htext : text.toList = [c])
    (h : Scans p rest R) : Scans (Scanner.exactly text >>= fun _ => p) (c :: rest) R := by
  have hscans : Scans (Scanner.exactly text >>= fun _ => p) (text.toList ++ rest) R := .text h
  rwa [htext] at hscans

/-- Behind a single character, where nothing is to be skipped, the next part reads. -/
theorem Scans.char_blanks {c : Char} {text : String} {p : Scanner β} (htext : text.toList = [c])
    (hgap : skipGap rest = rest) (h : Scans p rest R) :
    Scans (Scanner.exactly text >>= fun _ => Scanner.blanks >>= fun _ => p) (c :: rest) R :=
  .char htext <| .blanks <| hgap.symm ▸ h

/-- Where these characters are left the scanner reads a value with the property, and `rest` is left
but for a gap. -/
def Reaches (p : Scanner α) (cs rest : List Char) (Q : α → Prop) : Prop :=
  Scans p cs fun a r => skipGap r = rest ∧ Q a

namespace Reaches

variable {Q : α → Prop} {S : β → Prop} {mid : List Char}

protected theorem pure {a : α} (hrest : skipGap cs = rest) (h : Q a) : Reaches (pure a) cs rest Q :=
  Scans.pure ⟨hrest, h⟩

theorem mono {Q' : α → Prop} (h : Reaches p cs rest Q) (hQ : ∀ a, Q a → Q' a) :
    Reaches p cs rest Q' :=
  Scans.mono h fun a _ hr => ⟨hr.1, hQ a hr.2⟩

/-- Parts with a gap between. -/
theorem blanks (h : Reaches p cs mid Q) (hf : ∀ a, Q a → Scans (f a) mid R) :
    Scans (p >>= fun a => Scanner.blanks >>= fun _ => f a) cs R :=
  .bind h fun a _ hr => .blanks (hr.1 ▸ hf a hr.2)

/-- A value made of the last part. -/
theorem map (h : Reaches p cs rest Q) {g : α → β} (hg : ∀ a, Q a → S (g a)) :
    Reaches (p >>= fun a => Pure.pure (g a)) cs rest S :=
  .bind h fun a _ hr => .pure ⟨hr.1, hg a hr.2⟩

end Reaches

/-! ## Repetitions -/

variable {Q : β → α → Prop} {mid : List Char} {b : β} {bs : List β}

/-- From the characters the scanner reads one value after the other, with gaps between, and then it
fails. -/
inductive Spans (p : Scanner α) (Q : β → α → Prop) : List β → List Char → List Char → Prop
  | nil {cs : List Char} : Fails p cs → skipGap cs = cs → Spans p Q [] cs cs
  | cons {b : β} {bs : List β} {cs mid rest : List Char} : Reaches p cs mid (Q b) →
    mid.length < cs.length → Spans p Q bs mid rest → Spans p Q (b :: bs) cs rest

theorem Spans.length_le (h : Spans p Q bs cs rest) : bs.length ≤ cs.length := by
  induction h with
  | nil => exact Nat.zero_le _
  | cons _ hlt _ ih =>
    rw [List.length_cons]
    omega

/-- Behind a gap further values are read along a span. -/
theorem Spans.reaches_further (h : Spans p Q bs (skipGap cs) rest) {room : List Char}
    (hroom : bs.length ≤ room.length) :
    Reaches (further p room) cs rest fun xs => List.Forall₂ Q bs xs := by
  generalize hgap : skipGap cs = start at h
  induction h generalizing cs room with
  | nil hfails =>
    cases room with
    | nil => exact .pure hgap .nil
    | cons x room =>
      have hnone : Scans (optional (do Scanner.blanks; p)) cs fun x r => x = none ∧ r = cs :=
        .optional_none (.blanks (hgap ▸ hfails))
      refine .bind hnone ?_
      rintro _ r ⟨rfl, rfl⟩
      exact .pure ⟨hgap, .nil⟩
  | cons hp _ _ ih =>
    cases room with
    | nil => cases hroom
    | cons x room =>
      refine .bind (.optional_some (.blanks (hgap ▸ hp))) ?_
      rintro _ r ⟨a, rfl, hr, ha⟩
      exact (ih (Nat.le_of_succ_le_succ hroom) hr).map fun as has => .cons ha has

/-- Along a span many values are read. -/
theorem Spans.reaches_many (h : Spans p Q bs cs rest) :
    Reaches (many p) cs rest fun xs => List.Forall₂ Q bs xs := by
  unfold many
  refine Scans.atCursor fun c hc => ?_
  have hroom : bs.length ≤ c.rest.length := hc ▸ h.length_le
  cases h with
  | nil hfails hgap =>
    refine .bind (.optional_none hfails) ?_
    rintro _ r ⟨rfl, rfl⟩
    exact .pure ⟨hgap, .nil⟩
  | cons hp hlt hrest =>
    refine .bind (.optional_some hp) ?_
    rintro _ r ⟨a, rfl, hr, ha⟩
    refine (Spans.reaches_further (hr ▸ hrest) (Nat.le_of_lt hroom)).map fun as has => ?_
    exact .cons ha has

end Scanner

end TemplateEngine
