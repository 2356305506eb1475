import TemplateEngine.Proofs.Grammar.Phrases
import TemplateEngine.Proofs.Precedence.Depth

/-!
# Scanners that follow the grammar

A scanner follows a pattern if it reads where the pattern matches and fails where the pattern comes
to nothing, and if the phrases that the pattern leaves suit the value that is read
(`Scanner.Follows`). There is one lemma for each way to put patterns together. As expressions hold
expressions, a scanner may be known to follow its pattern on short rests only.
-/

namespace TemplateEngine

open Scanner

variable {m : Mode} {a b : Peg} {c d : Cursor} {ps : List Phrase} {r : Rule}

/-! ## What patterns take -/

/-- What is skipped is a gap. -/
theorem Mode.behind_skip (m : Mode) (c : Cursor) : ∃ gap, c.Behind gap (m.skip c) := by
  cases m with
  | spaced => exact ⟨_, Cursor.behind_drop (List.takeWhile_prefix _)⟩
  | close | atomic => exact ⟨[], .refl c⟩

theorem Mode.length_skip_le (m : Mode) (c : Cursor) :
    (m.skip c).rest.length ≤ c.rest.length := by
  obtain ⟨gap, hgap⟩ := m.behind_skip c
  exact hgap.length_le

/-- Where parts touch, nothing is skipped. -/
theorem Mode.skip_of_ne (h : m ≠ .spaced) (c : Cursor) : m.skip c = c := by
  cases m with
  | spaced => exact absurd rfl h
  | close | atomic => rfl

/-- A pattern that matches leaves its cursor behind a text that stands where it began. -/
theorem Matches.behind (h : Matches m a c (some (ps, d))) : ∃ text, c.Behind text d := by
  generalize hr : some (ps, d) = r at h
  induction h generalizing ps d with
  | text h =>
    cases hr
    exact ⟨_, Cursor.behind_drop h⟩
  | @char m ok c x hx _ =>
    cases hr
    obtain ⟨rest, hrest⟩ := List.head?_eq_some_iff.1 hx
    exact ⟨[x], Cursor.behind_drop ⟨rest, hrest.symm⟩⟩
  | atStart | atEnd | leftOut | manyEnds | furtherEnds | ahead | notAhead =>
    cases hr
    exact ⟨[], .refl _⟩
  | rule _ ih | first _ ih | given _ ih =>
    cases hr
    exact ih rfl
  | second _ _ _ ih => exact ih hr
  | @seq m _ _ _ d e _ _ _ _ iha ihb =>
    cases hr
    obtain ⟨s, hs⟩ := iha rfl
    obtain ⟨gap, hgap⟩ := m.behind_skip d
    obtain ⟨t, ht⟩ := ihb rfl
    exact ⟨_, (hs.trans hgap).trans ht⟩
  | many _ _ iha ihb =>
    cases hr
    obtain ⟨s, hs⟩ := iha rfl
    obtain ⟨t, ht⟩ := ihb rfl
    exact ⟨_, hs.trans ht⟩
  | @further m _ c _ _ _ _ _ _ iha ihb =>
    cases hr
    obtain ⟨gap, hgap⟩ := m.behind_skip c
    obtain ⟨s, hs⟩ := iha rfl
    obtain ⟨t, ht⟩ := ihb rfl
    exact ⟨_, (hgap.trans hs).trans ht⟩
  | _ => cases hr

theorem Matches.length_le (h : Matches m a c (some (ps, d))) : d.rest.length ≤ c.rest.length := by
  obtain ⟨text, htext⟩ := h.behind
  exact htext.length_le

/-- The pattern takes a character at least. -/
def Peg.Eats (m : Mode) (a : Peg) : Prop :=
  ∀ ⦃c : Cursor⦄ ⦃ps : List Phrase⦄ ⦃d : Cursor⦄, Matches m a c (some (ps, d)) →
    d.rest.length < c.rest.length

namespace Peg.Eats

theorem text {s : String} (h : s ≠ "") : (Peg.text s).Eats m := by
  rintro c _ _ ⟨hs⟩
  have hpos : 0 < s.toList.length := by
    rw [List.length_pos_iff]
    exact fun hnil => h (String.toList_eq_nil_iff.1 hnil)
  have hbehind := Cursor.behind_drop hs
  have hlength := congrArg List.length hbehind.rest
  rw [List.length_append] at hlength
  omega

theorem char (ok : Char → Bool) : (Peg.char ok).Eats m := by
  intro c _ _ h
  cases h with
  | char hx _ =>
    obtain ⟨rest, hrest⟩ := List.head?_eq_some_iff.1 hx
    simp [Cursor.drop, hrest]

theorem rule (h : r.body.Eats (r.kind.inside m)) : (Peg.rule r).Eats m := by
  intro c _ d hrule
  cases hrule with
  | rule hbody => exact h hbody

theorem seq (h : a.Eats m) : (Peg.seq a b).Eats m := by
  intro c _ e hab
  cases hab with
  | @seq _ _ _ _ d _ _ _ ha hb =>
    exact Nat.lt_of_le_of_lt (Nat.le_trans hb.length_le (m.length_skip_le d)) (h ha)

theorem behind (h : b.Eats m) : (Peg.seq a b).Eats m := by
  intro c _ e hab
  cases hab with
  | @seq _ _ _ _ d _ _ _ ha hb =>
    exact Nat.lt_of_lt_of_le (h hb) (Nat.le_trans (m.length_skip_le d) ha.length_le)

theorem choice (ha : a.Eats m) (hb : b.Eats m) : (Peg.choice a b).Eats m := by
  intro c _ d h
  cases h with
  | first h => exact ha h
  | second _ h => exact hb h

theorem firstOf {as : List Peg} (h : ∀ a ∈ as, a.Eats m) : (Peg.firstOf as).Eats m := by
  induction as with
  | nil => exact char _
  | cons a as ih =>
    rw [List.forall_mem_cons] at h
    cases as with
    | nil => exact h.1
    | cons b as => exact choice h.1 (ih h.2)

theorem word {words : List String} (h : "" ∉ words) : (Peg.word words).Eats m := by
  refine seq (firstOf fun a ha => ?_)
  obtain ⟨w, hw, rfl⟩ := List.mem_map.1 ha
  exact text fun hnil => h (hnil ▸ hw)

end Peg.Eats

/-! ## Following -/

namespace Scanner

variable {α β : Type} {n : Nat} {p q : Scanner α} {f g : α → Scanner β}
  {R R' : Cursor → List Phrase → Cursor → α → Prop}
  {S : Cursor → List Phrase → Cursor → β → Prop}

/-- Where fewer than `n` characters are left, the scanner fails where the pattern does, and where
the pattern matches it reads a value that suits the phrases and leaves the same cursor. -/
def Follows (n : Nat) (m : Mode) (a : Peg) (p : Scanner α)
    (R : Cursor → List Phrase → Cursor → α → Prop) : Prop :=
  ∀ c : Cursor, c.rest.length < n →
    ((p c).result = none ∧ Matches m a c none) ∨
      ∃ x d ps, p.Reads c x d ∧ Matches m a c (some (ps, d)) ∧ R c ps d x

theorem result_rule (p : Scanner α) (c : Cursor) : (rule p c).result = (p c).result := by
  unfold rule
  rcases p c with ⟨_ | r, reach⟩ <;> rfl

theorem result_orElse (p q : Scanner α) (c : Cursor) :
    (orElse p q c).result = (p c).result.or (q c).result := by
  unfold orElse
  rcases p c with ⟨_ | r, reach⟩ <;> rfl

theorem result_optional (p : Scanner α) (c : Cursor) :
    (optional p c).result = match (p c).result with
      | none => some (none, c)
      | some (x, d) => some (some x, d) := by
  rw [optional, result_orElse, result_bind]
  cases (p c).result <;> rfl

/-- Behind a gap. -/
theorem result_blanks (q : Scanner β) (c : Cursor) :
    ((blanks >>= fun _ => q) c).result = (q (Mode.spaced.skip c)).result := rfl

namespace Follows

theorem mono (h : Follows n m a p R) (hR : ∀ c ps d x, R c ps d x → R' c ps d x) :
    Follows n m a p R' := by
  intro c hc
  obtain h | ⟨x, d, ps, hp, ha, hx⟩ := h c hc
  · exact .inl h
  · exact .inr ⟨x, d, ps, hp, ha, hR c ps d x hx⟩

/-- A value made of the one that is read. -/
theorem map {g : α → β} (h : Follows n m a p R) (hg : ∀ c ps d x, R c ps d x → S c ps d (g x)) :
    Follows n m a (p >>= fun x => pure (g x)) S := by
  intro c hc
  obtain ⟨hp, ha⟩ | ⟨x, d, ps, hp, ha, hx⟩ := h c hc
  · exact .inl ⟨by rw [result_bind, hp]; rfl, ha⟩
  · exact .inr ⟨g x, d, ps, reads_bind.2 ⟨x, d, hp, rfl⟩, ha, hg c ps d x hx⟩

theorem of_eq (hp : ∀ c : Cursor, c.rest.length < n → (p c).result = (q c).result)
    (h : Follows n m a q R) : Follows n m a p R := by
  intro c hc
  unfold Reads
  rw [hp c hc]
  exact h c hc

/-- One pattern behind the other, where what is skipped between them is skipped by the scanner. -/
theorem seq_of (hp : Follows n m a p R)
    (hskip : ∀ x d, (f x d).result = (g x (m.skip d)).result)
    (hg : ∀ c ps d x, R c ps d x →
      Follows n m b (g x) fun c' qs e y => c' = m.skip d → S c (ps ++ qs) e y) :
    Follows n m (.seq a b) (p >>= f) S := by
  intro c hc
  obtain ⟨hp, ha⟩ | ⟨x, d, ps, hp, ha, hx⟩ := hp c hc
  · exact .inl ⟨by rw [result_bind, hp]; rfl, .noFirst ha⟩
  · have hresult : ((p >>= f) c).result = (g x (m.skip d)).result := by
      rw [result_bind, show (p c).result = some (x, d) from hp]
      exact hskip x d
    have hd : (m.skip d).rest.length < n :=
      Nat.lt_of_le_of_lt (Nat.le_trans (m.length_skip_le d) ha.length_le) hc
    obtain ⟨hg, hb⟩ | ⟨y, e, qs, hg, hb, hy⟩ := hg c ps d x hx (m.skip d) hd
    · exact .inl ⟨by rw [hresult, hg], .noSecond ha hb⟩
    · exact .inr ⟨y, e, ps ++ qs, hresult.trans hg, .seq ha hb, hy rfl⟩

/-- Parts with a gap between. -/
theorem seq {q : α → Scanner β} (hp : Follows n .spaced a p R)
    (hq : ∀ c ps d x, R c ps d x → Follows n .spaced b (q x) fun _ qs e y => S c (ps ++ qs) e y) :
    Follows n .spaced (.seq a b) (p >>= fun x => blanks >>= fun _ => q x) S :=
  seq_of hp (fun x d => result_blanks (q x) d) fun c ps d x hx =>
    (hq c ps d x hx).mono fun _ _ _ _ hy _ => hy

/-- Parts that touch. -/
theorem touch (hm : m ≠ .spaced) (hp : Follows n m a p R)
    (hf : ∀ c ps d x, R c ps d x →
      Follows n m b (f x) fun c' qs e y => c' = d → S c (ps ++ qs) e y) :
    Follows n m (.seq a b) (p >>= f) S := by
  refine seq_of hp (fun x d => by rw [Mode.skip_of_ne hm]) fun c ps d x hx => ?_
  rw [Mode.skip_of_ne hm]
  exact hf c ps d x hx

/-- A place is noted before what is read there. -/
theorem here {f : Position → Scanner β}
    (h : ∀ position, Follows n m a (f position) fun c ps d y => c.position = position →
      S c ps d y) : Follows n m a (Scanner.here >>= f) S := by
  intro c hc
  obtain h | ⟨y, d, ps, hf, ha, hy⟩ := h c.position c hc
  · exact .inl h
  · exact .inr ⟨y, d, ps, hf, ha, hy rfl⟩

/-- A rule leaves one phrase. -/
theorem rule (h : Follows n (r.kind.inside m) r.body p fun c ps d x =>
    R c (r.phrases m c d ps) d x) : Follows n m (.rule r) (Scanner.rule p) R := by
  intro c hc
  obtain ⟨hp, ha⟩ | ⟨x, d, ps, hp, ha, hx⟩ := h c hc
  · exact .inl ⟨by rw [result_rule, hp], .noRule ha⟩
  · exact .inr ⟨x, d, _, reads_rule.2 hp, .rule ha, hx⟩

theorem exactly (text : String) :
    Follows n m (.text text) (exactly text)
      fun c ps d _ => ps = [] ∧ c.Behind text.toList d := by
  intro c _
  unfold Reads Scanner.exactly
  split
  · next h =>
    have hbegins := List.isPrefixOf_iff_prefix.1 h
    exact .inr ⟨(), _, [], rfl, .text hbegins, rfl, Cursor.behind_drop hbegins⟩
  · next h => exact .inl ⟨rfl, .noText fun hprefix => h (List.isPrefixOf_iff_prefix.2 hprefix)⟩

/-- Behind a text that is not empty fewer characters are left. -/
theorem behind {text : String} {q : Scanner β} (htext : text ≠ "")
    (hq : Follows n .spaced b q fun _ ps e y => ∀ c, S c ps e y) :
    Follows (n + 1) .spaced (.seq (.text text) b)
      (Scanner.exactly text >>= fun _ => blanks >>= fun _ => q) S := by
  intro c hc
  obtain ⟨hp, ha⟩ | ⟨x, d, ps, hp, ha, rfl, -⟩ := exactly (m := .spaced) text c hc
  · exact .inl ⟨by rw [result_bind, hp]; rfl, .noFirst ha⟩
  · have hresult : ((Scanner.exactly text >>= fun _ => blanks >>= fun _ => q) c).result =
        (q (Mode.spaced.skip d)).result := by
      rw [result_bind, show (Scanner.exactly text c).result = some (x, d) from hp]
      rfl
    have hd : (Mode.spaced.skip d).rest.length < n := by
      have hskip := Mode.length_skip_le .spaced d
      have heats := Peg.Eats.text htext ha
      omega
    obtain ⟨hq, hb⟩ | ⟨y, e, qs, hq, hb, hy⟩ := hq _ hd
    · exact .inl ⟨by rw [hresult, hq], .noSecond ha hb⟩
    · exact .inr ⟨y, e, qs, hresult.trans hq, .seq ha hb, hy c⟩

theorem orElse (hp : Follows n m a p R) (hq : Follows n m b q R) :
    Follows n m (.choice a b) (orElse p q) R := by
  intro c hc
  unfold Reads
  rw [result_orElse]
  obtain ⟨hp, ha⟩ | ⟨x, d, ps, hp, ha, hx⟩ := hp c hc
  · rw [hp, Option.none_or]
    obtain ⟨hq, hb⟩ | ⟨x, d, ps, hq, hb, hx⟩ := hq c hc
    · exact .inl ⟨hq, .second ha hb⟩
    · exact .inr ⟨x, d, ps, hq, .second ha hb, hx⟩
  · rw [show (p c).result = some (x, d) from hp, Option.some_or]
    exact .inr ⟨x, d, ps, rfl, .first ha, hx⟩

theorem one (hp : Follows n m a p R) : Follows n m (.firstOf [a]) (firstOf [p]) R := by
  refine of_eq (fun c _ => ?_) hp
  exact (result_orElse p Scanner.fail c).trans Option.or_none

/-- One alternative more. -/
theorem more {as : List Peg} {qs : List (Scanner α)} (hp : Follows n m a p R)
    (h : Follows n m (.firstOf (b :: as)) (firstOf qs) R) :
    Follows n m (.firstOf (a :: b :: as)) (firstOf (p :: qs)) R :=
  orElse hp h

/-- What may be left out. -/
theorem optional {R' : Cursor → List Phrase → Cursor → Option α → Prop} (hp : Follows n m a p R)
    (hnone : ∀ c, R' c [] c none) (hsome : ∀ c ps d x, R c ps d x → R' c ps d (some x)) :
    Follows n m (.optional a) (optional p) R' := by
  intro c hc
  unfold Reads
  rw [result_optional]
  obtain ⟨hp, ha⟩ | ⟨x, d, ps, hp, ha, hx⟩ := hp c hc
  · rw [hp]
    exact .inr ⟨none, c, [], rfl, .leftOut ha, hnone c⟩
  · rw [show (p c).result = some (x, d) from hp]
    exact .inr ⟨some x, d, ps, rfl, .given ha, hsome c ps d x hx⟩

section

variable {T : List Phrase → α → Prop} {Ts : List Phrase → List α → Prop}

/-- Further values, by induction on the room: every value takes a character, so there is room for
all of them. -/
theorem further (hp : Follows n .spaced a p fun _ ps _ x => T ps x) (ha : a.Eats .spaced)
    (hnil : Ts [] []) (hcons : ∀ ps x qs xs, T ps x → Ts qs xs → Ts (ps ++ qs) (x :: xs))
    (room : List Char) (c : Cursor) (hc : c.rest.length < n)
    (hroom : c.rest.length ≤ room.length) :
    ∃ xs d ps, (Scanner.further p room).Reads c xs d ∧
      Matches .spaced (.further a) c (some (ps, d)) ∧ Ts ps xs := by
  have hskip := Mode.length_skip_le .spaced c
  induction room generalizing c with
  | nil =>
    refine ⟨[], c, [], rfl, .furtherEnds ?_, hnil⟩
    obtain ⟨-, ha'⟩ | ⟨x, d, ps, -, ha', -⟩ := hp (Mode.spaced.skip c) (by omega)
    · exact ha'
    · have heats := ha ha'
      rw [List.length_nil] at hroom
      omega
  | cons y room ih =>
    have hresult : (Scanner.optional (do blanks; p) c).result =
        match (p (Mode.spaced.skip c)).result with
          | none => some (none, c)
          | some (x, d) => some (some x, d) := by
      rw [result_optional, result_blanks]
    obtain ⟨hp', ha'⟩ | ⟨x, d, ps, hp', ha', hx⟩ := hp (Mode.spaced.skip c) (by omega)
    · rw [hp'] at hresult
      exact ⟨[], c, [], reads_bind.2 ⟨_, _, hresult, rfl⟩, .furtherEnds ha', hnil⟩
    · rw [show (p (Mode.spaced.skip c)).result = some (x, d) from hp'] at hresult
      have heats := ha ha'
      rw [List.length_cons] at hroom
      obtain ⟨xs, e, qs, hxs, hfurther, hTs⟩ :=
        ih d (by omega) (by omega) (Mode.length_skip_le _ d)
      exact ⟨x :: xs, e, ps ++ qs, reads_bind.2 ⟨_, _, hresult, reads_bind.2 ⟨_, _, hxs, rfl⟩⟩,
        .further ha' hfurther, hcons ps x qs xs hx hTs⟩

/-- Many values, with gaps between. -/
theorem many (hp : Follows n .spaced a p fun _ ps _ x => T ps x) (ha : a.Eats .spaced)
    (hnil : Ts [] []) (hcons : ∀ ps x qs xs, T ps x → Ts qs xs → Ts (ps ++ qs) (x :: xs)) :
    Follows n .spaced (.many a) (many p) fun _ ps _ xs => Ts ps xs := by
  intro c hc
  right
  obtain ⟨hp', ha'⟩ | ⟨x, d, ps, hp', ha', hx⟩ := hp c hc
  · have hresult := result_optional p c
    rw [hp'] at hresult
    exact ⟨[], c, [], reads_bind.2 ⟨_, _, hresult, rfl⟩, .manyEnds ha', hnil⟩
  · have hresult := result_optional p c
    rw [show (p c).result = some (x, d) from hp'] at hresult
    have heats := ha ha'
    obtain ⟨xs, e, qs, hxs, hfurther, hTs⟩ :=
      further hp ha hnil hcons c.rest d (by omega) (by omega)
    exact ⟨x :: xs, e, ps ++ qs, reads_bind.2 ⟨_, _, hresult, reads_bind.2 ⟨_, _, hxs, rfl⟩⟩,
      .many ha' hfurther, hcons ps x qs xs hx hTs⟩

end

end Follows

end Scanner

end TemplateEngine
