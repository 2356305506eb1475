import TemplateEngine.Proofs.Spelling.Cursors

/-!
# How tags are spelled

A statement tag is written in parts: its keyword and its operands, with gaps between that may be
empty (`Written`). Every tag has its own parts (`Tag.parts`), and whatever is read as a tag is
written in them (`writes_tag`). In one place a word is not the one that it should be: between
the variable and the items of a `for` stands any keyword that begins with `in`, and besides `in`
itself there is `include` (`Tag.Spelled`).
-/

namespace TemplateEngine

open Scanner

/-! ## Parts -/

/-- A part of a tag. -/
inductive Part
  | word (w : String)
  | name (n : String)
  | sign (text : String)
  | expr (e : Expr)
  /-- An operand that stands alone. -/
  | operand (e : Expr)

/-- Names with commas between. -/
def paramParts : List String → List Part
  | [] => []
  | n :: rest => .name n :: rest.flatMap fun m => [.sign ",", .name m]

/-- The parts of a tag behind its keyword, with the word that stands between the variable and the
items of a `for`. -/
def Tag.operands (between : String) : Tag → List Part
  | .set target value => [.operand target, .sign "=", .expr value]
  | .setGlobal ref value => [.name ref.name, .sign "=", .expr value]
  | .if c | .elif c | .while c => [.expr c]
  | .for ref items => [.name ref.name, .word between, .expr items]
  | .function name params => .name name.name :: .sign "(" :: (paramParts params ++ [.sign ")"])
  | .return value => value.toList.map .expr
  | .capture target => [.operand target]
  | .include path none => [.expr path]
  | .include path (some model) => [.expr path, .word "with", .expr model]
  | .else | .endif | .endfor | .endwhile | .break | .continue | .endfunction | .endcapture => []

/-- The parts of a tag. -/
def Tag.parts (between : String) (t : Tag) : List Part := .word t.word :: t.operands between

/-- The parts are those of the tag, but in a `for` the word `include` may stand for `in`. -/
def Tag.Spelled (t : Tag) (parts : List Part) : Prop :=
  ∃ between, (between = "in" ∨ between = "include") ∧ parts = t.parts between

/-- No word goes on at the cursor. -/
def Cursor.EndsWord (c : Cursor) : Prop := c.rest.head?.all (fun x => !isWordChar x) = true

/-- The part stands between two cursors. -/
def Part.At : Part → Cursor → Cursor → Prop
  | .word w, c, d => c.Behind w.toList d ∧ d.EndsWord
  | .name n, c, d => c.Behind n.toList d ∧ d.EndsWord ∧ isName n = true
  | .sign text, c, d => c.Behind text.toList d
  | .expr e, c, d => expression.Reads c e d
  | .operand e, c, d => target.Reads c e d

/-- Between two cursors stand the parts, with gaps before, between and behind them. -/
inductive Written : List Part → Cursor → Cursor → Prop
  | nil {gap : List Char} {c d : Cursor} : gap.all isGap = true → c.Behind gap d → Written [] c d
  | cons {gap : List Char} {part : Part} {parts : List Part} {b c d e : Cursor} :
    gap.all isGap = true → b.Behind gap c → part.At c d → Written parts d e →
      Written (part :: parts) b e

namespace Written

variable {part : Part} {ps qs : List Part} {b c d : Cursor}

theorem refl (c : Cursor) : Written [] c c := .nil rfl (.refl c)

theorem one (h : part.At c d) : Written [part] c d := .cons rfl (.refl c) h (.refl d)

/-- A gap in front adds to the one that is there. -/
theorem gap {gap : List Char} (hgap : gap.all isGap = true) (h : b.Behind gap c)
    (k : Written ps c d) : Written ps b d := by
  cases k with
  | nil hmore hbehind => exact .nil (by rw [List.all_append, hgap, hmore]; rfl) (h.trans hbehind)
  | cons hmore hbehind hpart hrest =>
    exact .cons (by rw [List.all_append, hgap, hmore]; rfl) (h.trans hbehind) hpart hrest

/-- The parts stand where they are written. -/
theorem behind (h : Written ps b c) : ∃ text, b.Behind text c := by
  induction h with
  | nil _ hbehind => exact ⟨_, hbehind⟩
  | @cons _ part _ _ _ _ _ _ hbehind hpart _ ih =>
    obtain ⟨after, hafter⟩ := ih
    obtain ⟨text, htext⟩ : ∃ text, Cursor.Behind _ text _ := match part, hpart with
      | .word _, h => ⟨_, h.1⟩
      | .name _, h => ⟨_, h.1⟩
      | .sign _, h => ⟨_, h⟩
      | .expr _, h => advances_expression h
      | .operand _, h => advances_target h
    exact ⟨_, hbehind.trans (htext.trans hafter)⟩

theorem append (h : Written ps b c) (k : Written qs c d) : Written (ps ++ qs) b d := by
  induction h with
  | nil hgap hbehind => exact .gap hgap hbehind k
  | cons hgap hbehind hpart _ ih => exact .cons hgap hbehind hpart (ih k)

end Written

namespace Scanner

variable {α β : Type} {p : Scanner α} {f : α → Scanner β} {S : β → List Part → Prop}
  {parts : α → List Part}

/-- Whatever the scanner reads is written in parts that suit the value. -/
def Writes (S : α → List Part → Prop) (p : Scanner α) : Prop :=
  ∀ ⦃c : Cursor⦄ ⦃a : α⦄ ⦃d : Cursor⦄, p.Reads c a d → ∃ ps, S a ps ∧ Written ps c d

/-- Whatever the scanner reads is written in the parts of the value. -/
def Spells (parts : α → List Part) (p : Scanner α) : Prop := Writes (fun a ps => ps = parts a) p

namespace Writes

protected theorem pure {b : β} (h : S b []) : Writes S (pure b) := by
  rintro c _ _ ⟨⟩
  exact ⟨[], h, .refl c⟩

theorem bind {R : α → List Part → Prop} (hp : Writes R p)
    (hf : ∀ a ps, R a ps → Writes (fun b qs => S b (ps ++ qs)) (f a)) : Writes S (p >>= f) := by
  intro c b d h
  obtain ⟨a, e, ha, hb⟩ := reads_bind.1 h
  obtain ⟨ps, hps, hwritten⟩ := hp ha
  obtain ⟨qs, hqs, hmore⟩ := hf a ps hps hb
  exact ⟨ps ++ qs, hqs, hwritten.append hmore⟩

/-- The value says what its parts are. -/
theorem spelled (hp : Spells parts p)
    (hf : ∀ a, Writes (fun b qs => S b (parts a ++ qs)) (f a)) : Writes S (p >>= f) :=
  .bind hp fun a _ hps => hps ▸ hf a

theorem rule {S : α → List Part → Prop} (hp : Writes S p) : Writes S (rule p) :=
  fun _ _ _ h => hp (reads_rule.1 h)

theorem gap {u : Scanner β} (h : Writes S u) : Writes S (blanks >>= fun _ => u) := by
  intro c b d hreads
  obtain ⟨_, e, hgap, hu⟩ := reads_bind.1 hreads
  obtain ⟨gap, hall, hbehind⟩ := behind_of_blanks hgap
  obtain ⟨ps, hps, hwritten⟩ := h hu
  exact ⟨ps, hps, .gap hall hbehind hwritten⟩

theorem mono {R S : α → List Part → Prop} (h : Writes R p) (hRS : ∀ a ps, R a ps → S a ps) :
    Writes S p := by
  intro c a d hreads
  obtain ⟨ps, hps, hwritten⟩ := h hreads
  exact ⟨ps, hRS a ps hps, hwritten⟩

theorem firstOf {S : α → List Part → Prop} {ps : List (Scanner α)}
    (h : ∀ p ∈ ps, Writes S p) : Writes S (firstOf ps) := by
  intro c a d hreads
  obtain ⟨p, hp, hreads⟩ := hreads.of_firstOf
  exact h p hp hreads

end Writes

namespace Spells

theorem optional (hp : Spells parts p) :
    Spells (fun x : Option α => x.toList.flatMap parts) (optional p) := by
  intro c x d h
  obtain ⟨a, rfl, ha⟩ | ⟨rfl, rfl⟩ := h.of_optional
  · obtain ⟨ps, rfl, hwritten⟩ := hp ha
    exact ⟨_, by simp, hwritten⟩
  · exact ⟨[], rfl, .refl _⟩

theorem further (hp : Spells parts p) : ∀ room : List Char,
    Spells (fun xs : List α => xs.flatMap parts) (further p room)
  | [] => Writes.pure rfl
  | _ :: room => Writes.spelled (Spells.optional (Writes.gap hp)) fun
    | none => Writes.pure rfl
    | some a => Writes.spelled (further hp room) fun rest => Writes.pure (by simp)

theorem many (hp : Spells parts p) :
    Spells (fun xs : List α => xs.flatMap parts) (many p) := by
  intro c xs d h
  refine Writes.spelled (S := fun xs ps => ps = xs.flatMap parts) (optional hp) (fun x => ?_) h
  cases x with
  | none => exact Writes.pure rfl
  | some a => exact Writes.spelled (further hp c.rest) fun rest => Writes.pure (by simp)

end Spells

end Scanner

/-! ## Single parts -/

theorem spells_identifier : identifier.Spells fun n => [.name n] := by
  intro c n d h
  obtain ⟨hbehind, hname, hend⟩ := behind_of_wordThat (reads_rule.1 h)
  exact ⟨_, rfl, .one ⟨hbehind, hend, hname⟩⟩

theorem spells_bound (scope : ScopeKind) : (bound scope).Spells fun ref => [.name ref.name] := by
  intro c ref d h
  obtain ⟨p, e, hhere, h⟩ := reads_bind.1 h
  cases hhere
  obtain ⟨n, e, hn, hpure⟩ := reads_bind.1 h
  cases hpure
  exact spells_identifier hn

theorem spells_exactly (text : String) : (exactly text).Spells fun _ => [.sign text] :=
  fun _ _ _ h => ⟨_, rfl, .one (behind_of_exactly h)⟩

theorem spells_expression : expression.Spells fun e => [.expr e] :=
  fun _ _ _ h => ⟨_, rfl, .one h⟩

theorem spells_target : target.Spells fun e => [.operand e] :=
  fun _ _ _ h => ⟨_, rfl, .one h⟩

/-- What a text begins with, as far as it is a word, its first word begins with. -/
theorem prefix_of_word {stem word : List Char} {rest : List Char}
    (hstem : stem.all isWordChar = true) (h : stem <+: word ++ rest)
    (hend : rest.head?.all (fun x => !isWordChar x) = true) : stem <+: word := by
  obtain hword | ⟨more, rfl⟩ := List.prefix_or_prefix_of_prefix h (List.prefix_append word rest)
  · exact hword
  · cases more with
    | nil => simp
    | cons x more =>
      -- the word would go on with `x`
      obtain ⟨tail, htail⟩ := h
      rw [List.append_assoc, List.append_cancel_left_eq] at htail
      have hx : isWordChar x = true := List.all_eq_true.1 hstem x (by simp)
      rw [← htail] at hend
      simp [hx] at hend

/-- A keyword is one of those that begin with its stem. -/
theorem writes_keyword {stem : String} (hstem : stem.toList.all isWordChar = true) :
    (keyword stem).Writes fun _ ps =>
      ∃ w ∈ keywords.filter fun w => stem.toList.isPrefixOf w.toList, ps = [.word w] := by
  intro c u d h
  unfold Reads keyword at h
  split at h
  · next hprefix =>
    obtain ⟨w, e, hw, hpure⟩ := reads_bind.1 h
    cases hpure
    obtain ⟨hbehind, hwanted, hend⟩ := behind_of_wordThat (reads_rule.1 hw)
    rw [List.isPrefixOf_iff_prefix, hbehind.rest] at hprefix
    have hword := prefix_of_word hstem hprefix hend
    exact ⟨_, ⟨w, List.mem_filter.2 ⟨List.contains_iff_mem.1 hwanted,
      List.isPrefixOf_iff_prefix.2 hword⟩, rfl⟩, .one ⟨hbehind, hend⟩⟩
  · cases h

/-- Every other keyword is its own stem only. -/
theorem spells_keyword {word : String} (hword : word.toList.all isWordChar = true)
    (h : keywords.filter (fun w => word.toList.isPrefixOf w.toList) = [word]) :
    (keyword word).Spells fun _ => [.word word] :=
  (writes_keyword hword).mono fun _ ps ⟨w, hw, hps⟩ => by
    rw [h, List.mem_singleton] at hw
    rw [hps, hw]

/-- Between the variable and the items of a `for` there can be two words. -/
theorem writes_keyword_in : (keyword "in").Writes fun _ ps =>
    ∃ between, (between = "in" ∨ between = "include") ∧ ps = [.word between] :=
  (writes_keyword (by decide)).mono fun _ ps ⟨w, hw, hps⟩ => by
    have hwords : keywords.filter (fun w => "in".toList.isPrefixOf w.toList) = ["include", "in"] :=
      by decide
    rw [hwords] at hw
    have hw : w = "include" ∨ w = "in" := by simpa using hw
    exact ⟨w, hw.symm, hps⟩

/-! ## Tags -/

theorem Tag.spelled_parts (t : Tag) : t.Spelled (t.parts "in") := ⟨"in", .inl rfl, rfl⟩

theorem writes_bareTag (t : Tag) (hword : t.word.toList.all isWordChar = true)
    (hown : keywords.filter (fun w => t.word.toList.isPrefixOf w.toList) = [t.word])
    (h : t.parts "in" = [.word t.word]) : (bareTag t).Writes Tag.Spelled :=
  .rule <| .spelled (spells_keyword hword hown) fun _ => .pure ⟨"in", .inl rfl, h.symm⟩

theorem writes_exprTag (word : String) {make : Expr → Tag}
    (hword : word.toList.all isWordChar = true)
    (hown : keywords.filter (fun w => word.toList.isPrefixOf w.toList) = [word])
    (h : ∀ e, (make e).parts "in" = [.word word, .expr e]) :
    (exprTag word make).Writes Tag.Spelled :=
  .rule <| .spelled (spells_keyword hword hown) fun _ => .gap <|
    .spelled spells_expression fun e => .pure ⟨"in", .inl rfl, (h e).symm⟩

theorem writes_setTag : setTag.Writes Tag.Spelled :=
  .rule <| .spelled (spells_keyword (by decide) (by decide)) fun _ => .gap <|
    .spelled spells_target fun target => .gap <|
    .spelled (spells_exactly "=") fun _ => .gap <|
    .spelled spells_expression fun value => .pure (Tag.set target value).spelled_parts

theorem writes_globalTag : globalTag.Writes Tag.Spelled :=
  .rule <| .spelled (spells_keyword (by decide) (by decide)) fun _ => .gap <|
    .spelled (spells_bound .global) fun ref => .gap <|
    .spelled (spells_exactly "=") fun _ => .gap <|
    .spelled spells_expression fun value => .pure (Tag.setGlobal ref value).spelled_parts

theorem writes_forTag : forTag.Writes Tag.Spelled :=
  .rule <| .spelled (spells_keyword (by decide) (by decide)) fun _ => .gap <|
    .spelled (spells_bound .loop) fun ref => .gap <|
    .bind writes_keyword_in fun _ ps ⟨between, hbetween, hps⟩ => .gap <|
    .spelled spells_expression fun items => .pure ⟨between, hbetween, hps ▸ rfl⟩

theorem writes_functionTag : functionTag.Writes Tag.Spelled := by
  have hmore : Spells (fun ns : List String => ns.flatMap fun m => [.sign ",", .name m])
      (many (do exactly ","; blanks; identifier)) :=
    .many <| Writes.spelled (spells_exactly ",") fun _ => .gap <|
      spells_identifier.mono fun n ps hps => hps ▸ rfl
  have hparams : (separated identifier).Spells paramParts :=
    Writes.spelled spells_identifier fun n => .gap <|
      .spelled hmore fun rest => .pure (by simp [paramParts])
  refine .rule <| .spelled (spells_keyword (by decide) (by decide)) fun _ => .gap <|
    .spelled (spells_bound .global) fun name => .gap <|
    .spelled (spells_exactly "(") fun _ => .gap <|
    .spelled (.optional hparams) fun params => .gap <|
    .spelled (spells_exactly ")") fun _ => .pure ?_
  cases params with
  | none => exact (Tag.function name []).spelled_parts
  | some ns =>
    refine ⟨"in", .inl rfl, ?_⟩
    simp [Tag.parts, Tag.operands, Tag.word]

theorem writes_returnTag : returnTag.Writes Tag.Spelled := by
  refine .rule <| .spelled (spells_keyword (by decide) (by decide)) fun _ => .gap <|
    .spelled (.optional spells_expression) fun value => .pure ?_
  cases value with
  | none => exact (Tag.return none).spelled_parts
  | some e => exact (Tag.return (some e)).spelled_parts

theorem writes_captureTag : captureTag.Writes Tag.Spelled :=
  .rule <| .spelled (spells_keyword (by decide) (by decide)) fun _ => .gap <|
    .spelled spells_target fun target => .pure (Tag.capture target).spelled_parts

theorem writes_includeTag : includeTag.Writes Tag.Spelled := by
  have hmodel : Spells (fun e => [.word "with", .expr e])
      (do keyword "with"; blanks; expression) :=
    Writes.spelled (spells_keyword (by decide) (by decide)) fun _ => .gap <|
      spells_expression.mono fun e ps hps => hps ▸ rfl
  refine .rule <| .spelled (spells_keyword (by decide) (by decide)) fun _ => .gap <|
    .spelled spells_expression fun path => .gap <|
    .spelled (.optional hmodel) fun model => .pure ?_
  cases model with
  | none => exact (Tag.include path none).spelled_parts
  | some e => exact (Tag.include path (some e)).spelled_parts

/-- Whatever is read as a tag is written in the parts of the tag. -/
theorem writes_tag : tag.Writes Tag.Spelled := by
  refine .firstOf ?_
  simp only [List.forall_mem_cons, List.not_mem_nil, false_imp_iff, implies_true, and_true]
  exact ⟨writes_setTag, writes_globalTag,
    writes_exprTag "if" (by decide) (by decide) fun _ => rfl,
    writes_exprTag "elif" (by decide) (by decide) fun _ => rfl,
    writes_bareTag .else (by decide) (by decide) rfl,
    writes_bareTag .endif (by decide) (by decide) rfl,
    writes_forTag,
    writes_bareTag .endfor (by decide) (by decide) rfl,
    writes_exprTag "while" (by decide) (by decide) fun _ => rfl,
    writes_bareTag .endwhile (by decide) (by decide) rfl,
    writes_bareTag .break (by decide) (by decide) rfl,
    writes_bareTag .continue (by decide) (by decide) rfl,
    writes_functionTag,
    writes_bareTag .endfunction (by decide) (by decide) rfl,
    writes_returnTag, writes_captureTag,
    writes_bareTag .endcapture (by decide) (by decide) rfl,
    writes_includeTag⟩

end TemplateEngine
