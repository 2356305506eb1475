import TemplateEngine.Proofs.Control.Placement
import TemplateEngine.Proofs.Grammar.Lexemes
import TemplateEngine.Proofs.Grammar.Meaning
import TemplateEngine.Proofs.Grammar.Sources
import TemplateEngine.Proofs.Nesting.WellNested
import TemplateEngine.Proofs.Positions.Tokens
import TemplateEngine.Proofs.Spelling.Sources

/-!
# Why sources with a tree are refused

If a source follows the grammar, its tokens are built of its tree without a fault of the building
itself, whatever the size of its integers. Three kinds of fault are left: integers out of range,
tags that do not nest, and controls outside of loops. Each of them counts only if the source has
none of those before it, and of integers and controls the first one in the source is reported
(`Verdict`).

A phrase is listed before the phrases in it, and phrases one behind the other are listed as they
stand in the source. So every phrase of a match has a place that is not before those of the phrases
listed before it (`Matches.listing`), and the first phrase of a kind in the list is the first one of
its kind in the source (`isFirst_of_find?`). Each of them was left by a match of its own rule.

* `building_follows_the_grammar` — the faults that a source has, and the one that is reported.
-/

namespace TemplateEngine

section

variable {m : Mode} {a : Peg} {c d e : Cursor} {ps : List Phrase}

/-! ## Places -/

namespace Position

variable {p q r : Position}

/-- The first place is the other one or before it. -/
def AtMost (p q : Position) : Prop := p = q ∨ p.Before q

theorem AtMost.refl (p : Position) : p.AtMost p := .inl rfl

theorem AtMost.trans (h : p.AtMost q) (k : q.AtMost r) : p.AtMost r := by
  obtain rfl | h := h
  · exact k
  · obtain rfl | k := k
    · exact .inr h
    · exact .inr (h.trans k)

theorem atMost_after (p : Position) (text : List Char) : p.AtMost (p.after text) := by
  by_cases htext : text = []
  · subst htext
    exact .refl p
  · exact .inr (before_after htext p)

/-- Of the places with the property this is the first one. -/
def IsFirst (p : Position) (S : Position → Prop) : Prop := S p ∧ ∀ q, S q → p.AtMost q

end Position

theorem Cursor.Behind.atMost {text : List Char} (h : c.Behind text d) :
    c.position.AtMost d.position := by
  rw [h.position]
  exact Position.atMost_after _ _

theorem Mode.atMost_skip (m : Mode) (c : Cursor) : c.position.AtMost (m.skip c).position := by
  obtain ⟨gap, hgap⟩ := m.behind_skip c
  exact hgap.atMost

theorem Matches.atMost (h : Matches m a c (some (ps, d))) : c.position.AtMost d.position := by
  obtain ⟨text, htext⟩ := h.behind
  exact htext.atMost

/-- Of a list in order the first element with a property has the first place. -/
theorem isFirst_of_find? {ss : List Phrase}
    (h : ss.Pairwise fun s t => s.position.AtMost t.position) {S : Phrase → Prop}
    [DecidablePred S] {p : Position} (hp : (ss.find? fun s => S s).map (·.position) = some p) :
    p.IsFirst fun q => ∃ s ∈ ss, S s ∧ s.position = q := by
  obtain ⟨s, hs, rfl⟩ := Option.map_eq_some_iff.1 hp
  obtain ⟨hS, before, after, rfl, hbefore⟩ := List.find?_eq_some_iff_append.1 hs
  refine ⟨⟨s, by simp, by simpa using hS, rfl⟩, ?_⟩
  rintro _ ⟨t, ht, htS, rfl⟩
  obtain ht | rfl | ht := by simpa using ht
  · exact absurd htS (by simpa using hbefore t ht)
  · exact .refl _
  · exact (List.pairwise_cons.1 (List.pairwise_append.1 h).2.1).1 t ht

/-! ## Phrases of a match -/

/-- The phrases stand between the cursors in the order of the list, each left by its own rule. -/
structure Listing (c d : Cursor) (ss : List Phrase) : Prop where
  made : ∀ s ∈ ss, ∃ m b e, Matches m (.rule s.rule) b (some ([s], e))
  within : ∀ s ∈ ss, c.position.AtMost s.position ∧ s.position.AtMost d.position
  ordered : ss.Pairwise fun s t => s.position.AtMost t.position

namespace Listing

variable {ss ts : List Phrase}

theorem nil : Listing c d [] := ⟨nofun, nofun, .nil⟩

theorem append (h : Listing c d ss) (hcd : c.position.AtMost d.position)
    (k : Listing d e ts) (hde : d.position.AtMost e.position) : Listing c e (ss ++ ts) where
  made := List.forall_mem_append.2 ⟨h.made, k.made⟩
  within := List.forall_mem_append.2
    ⟨fun s hs => ⟨(h.within s hs).1, (h.within s hs).2.trans hde⟩,
      fun t ht => ⟨hcd.trans (k.within t ht).1, (k.within t ht).2⟩⟩
  ordered := List.pairwise_append.2
    ⟨h.ordered, k.ordered, fun s hs t ht => (h.within s hs).2.trans (k.within t ht).1⟩

/-- What stands behind a gap stands behind the cursor before the gap. -/
theorem skip (h : Listing (m.skip c) d ss) : Listing c d ss where
  made := h.made
  within s hs := ⟨(m.atMost_skip c).trans (h.within s hs).1, (h.within s hs).2⟩
  ordered := h.ordered

/-- A phrase stands where the phrases in it begin. -/
theorem cons {s : Phrase} (h : Listing c d ss) (hs : s.position = c.position)
    (hcd : c.position.AtMost d.position)
    (hmade : ∃ m b e, Matches m (.rule s.rule) b (some ([s], e))) : Listing c d (s :: ss) where
  made := List.forall_mem_cons.2 ⟨hmade, h.made⟩
  within := List.forall_mem_cons.2 ⟨by rw [hs]; exact ⟨.refl _, hcd⟩, h.within⟩
  ordered := List.pairwise_cons.2 ⟨fun t ht => hs ▸ (h.within t ht).1, h.ordered⟩

end Listing

/-- The phrases of a match are listed in the order of the source, by induction on the match. -/
theorem Matches.listing (h : Matches m a c (some (ps, d))) : Listing c d (phrasesIn ps) := by
  generalize hr : some (ps, d) = r at h
  induction h generalizing ps d with
  | text | char | atStart | atEnd | leftOut | manyEnds | furtherEnds | ahead | notAhead =>
    cases hr
    exact .nil
  | @rule m r c d ps hbody ih =>
    cases hr
    have hrule := Matches.rule hbody
    unfold Rule.phrases at hrule ⊢
    by_cases hkept : r.kind.isKept m = true
    · rw [if_pos hkept] at hrule ⊢
      rw [phrasesIn_singleton]
      exact (ih rfl).cons rfl hbody.atMost ⟨m, c, d, hrule⟩
    · rw [if_neg hkept]
      exact ih rfl
  | first _ ih | given _ ih =>
    cases hr
    exact ih rfl
  | second _ _ _ ih => exact ih hr
  | @seq m _ _ _ d e _ _ ha hb iha ihb =>
    cases hr
    rw [phrasesIn_append]
    exact (iha rfl).append ha.atMost (ihb rfl).skip ((m.atMost_skip d).trans hb.atMost)
  | many ha hb iha ihb =>
    cases hr
    rw [phrasesIn_append]
    exact (iha rfl).append ha.atMost (ihb rfl) hb.atMost
  | @further m _ c _ _ _ _ ha hb iha ihb =>
    cases hr
    rw [phrasesIn_append]
    exact (iha rfl).skip.append ((m.atMost_skip c).trans ha.atMost) (ihb rfl) hb.atMost
  | _ => cases hr

/-! ## Phrases of a source -/

section

variable {source : String} {tree : Phrase} (h : Derives source tree)

include h

theorem Derives.ordered : tree.phrases.Pairwise fun s t => s.position.AtMost t.position := by
  obtain ⟨d, hmatches⟩ := h
  have hordered := hmatches.listing.ordered
  rwa [phrasesIn, phrasesIn, List.append_nil] at hordered

/-- No quoted text of a source has a backslash left over at its end. -/
theorem Derives.whole_of_string {s : Phrase} (hs : s ∈ tree.phrases) (hrule : s.rule = .string) :
    ∃ body, s.parts = [body] ∧ dangles body.lexeme = false := by
  obtain ⟨d, hmatches⟩ := h
  have hmade := hmatches.listing.made
  rw [phrasesIn, phrasesIn, List.append_nil] at hmade
  obtain ⟨m, b, e, hs⟩ := hmade s hs
  rw [hrule] at hs
  obtain ⟨_, body, ⟨⟩, hparts, hdangles⟩ := hs.whole_of_string
  exact ⟨body, hparts, hdangles⟩

end

end

/-! ## Places in order -/

/-- Phrases in a row are in order if all of their phrases are. -/
theorem sublist_phrasesIn (ps : List Phrase) : ps.Sublist (phrasesIn ps) := by
  induction ps with
  | nil => exact .slnil
  | cons p ps ih =>
    obtain ⟨rule, position, lexeme, parts⟩ := p
    rw [phrasesIn, Phrase.phrases, List.cons_append]
    exact (ih.trans (List.sublist_append_right _ _)).cons_cons _

/-- The controls in the tokens of pieces stand where the phrases of the pieces do. -/
theorem controlPlaces_tokensOf (options : ParserOptions) {ps : List Phrase} {pieces : List Piece}
    (h : List.Forall₂ IsPiece ps pieces) (afterTag : Bool) :
    (controlPlaces (tokensOf options afterTag pieces)).Sublist (ps.map (·.position)) := by
  induction h generalizing afterTag with
  | nil => exact .slnil
  | @cons p piece ps pieces hp _ ih =>
    rw [List.map_cons]
    cases hp with
    | @text position lexeme =>
      unfold tokensOf
      dsimp only
      generalize (if afterTag && options.trimBlocks then dropLineBreak lexeme else lexeme) = text
      split
      · exact (ih false).cons _
      · exact (ih false).cons _
    | comment => exact (ih false).cons _
    | output => exact (ih false).cons _
    | @statement position lexeme part tag _ =>
      have hplace : controlPlaces [.tag tag position] = [] ∨
          controlPlaces [.tag tag position] = [position] := by
        cases tag <;> simp [controlPlaces, Token.controlPlace?]
      have hcons :
          controlPlaces (tokensOf options afterTag (⟨lexeme, .statement tag position⟩ :: pieces)) =
            controlPlaces [.tag tag position] ++ controlPlaces (tokensOf options true pieces) :=
        controlPlaces_append [.tag tag position] _
      rw [hcons]
      obtain hplace | hplace := hplace
      · rw [hplace]
        exact (ih true).cons _
      · rw [hplace]
        exact (ih true).cons_cons _

theorem IsSource.controls_ordered {source : String} {tree : Phrase} {pieces : List Piece}
    (h : IsSource tree pieces) (hderives : Derives source tree) (options : ParserOptions) :
    (controlPlaces (tokensOf options false pieces)).Pairwise Position.AtMost := by
  obtain ⟨rule, position, lexeme, parts⟩ := tree
  obtain ⟨-, ps, last, rfl, hpieces, -, -⟩ := h
  have hordered := hderives.ordered
  rw [Phrase.phrases, List.pairwise_cons] at hordered
  have hparts : ps.Pairwise fun s t => s.position.AtMost t.position :=
    hordered.2.sublist ((List.sublist_append_left ps [last]).trans (sublist_phrasesIn _))
  exact (List.pairwise_map.2 hparts).sublist (controlPlaces_tokensOf options hpieces false)

/-! ## Controls -/

/-- The error is the first one of the stray controls in the block. -/
def Block.FirstStray (b : Block) (e : ParseError) : Prop :=
  b.Strays e ∧ e.position.IsFirst fun p => ∃ e', b.Strays e' ∧ e'.position = p

/-- What the pass finds first stands first. -/
theorem firstStray_of_strayControl? {ts : List Token} {b : Block} {e : ParseError}
    (hts : ts.map Token.forget = blockTokens b)
    (hordered : (controlPlaces ts).Pairwise Position.AtMost)
    (h : strayControl? false b = some e) : b.FirstStray e := by
  rw [strayControl?_eq_head?, List.head?_eq_some_iff] at h
  obtain ⟨rest, hstrays⟩ := h
  have hmem (e' : ParseError) : e' ∈ e :: rest ↔ b.Strays e' := by
    rw [← hstrays, mem_strays_iff]
  have hplaces : ((e :: rest).map (·.position)).Pairwise Position.AtMost := by
    rw [← hstrays]
    refine List.Pairwise.sublist (strays_sublist false b) ?_
    rwa [← hts, controlPlaces_forget]
  rw [List.map_cons, List.pairwise_cons] at hplaces
  have he : b.Strays e := (hmem e).1 List.mem_cons_self
  refine ⟨he, ⟨e, he, rfl⟩, ?_⟩
  rintro _ ⟨e', he', rfl⟩
  obtain rfl | hrest := List.mem_cons.1 ((hmem e').2 he')
  · exact .refl _
  · exact hplaces.1 _ (List.mem_map_of_mem hrest)

/-! ## Tags -/

/-- The fault is that of a tag that does not nest. -/
def ParseFault.IsNesting : ParseFault → Prop
  | .unexpectedTag .. | .unclosedTag .. => True
  | .grammar | .literalRange | .outsideLoop _ => False

theorem Builder.isNesting_of_step {b : Builder} {t : Token} {e : ParseError}
    (h : b.step t = .error e) : e.fault.IsNesting := by
  unfold step at h
  split at h
  · cases h
  · cases h
  · split at h
    · cases h
    · split at h
      · cases h
      · unfold turn at h
        split at h
        · cases h
          trivial
        · split at h <;> cases h
          trivial

theorem Builder.isNesting_of_fold {ts : List Token} {b : Builder} {e : ParseError}
    (h : ts.foldlM step b = .error e) : e.fault.IsNesting := by
  induction ts generalizing b with
  | nil => cases h
  | cons t ts ih =>
    rw [List.foldlM_cons] at h
    cases hstep : b.step t with
    | error e' =>
      rw [hstep] at h
      cases h
      exact isNesting_of_step hstep
    | ok c =>
      rw [hstep] at h
      exact ih h

/-- Tokens are read as a block, or they are not well nested and the error says so. -/
theorem ofTokens_cases (ts : List Token) :
    (∃ b, Block.ofTokens ts = .ok b ∧ WellNested ts ∧ ts.map Token.forget = blockTokens b) ∨
      ∃ e, Block.ofTokens ts = .error e ∧ ¬WellNested ts ∧ e.fault.IsNesting := by
  cases h : Block.ofTokens ts with
  | ok b =>
    obtain ⟨hread, hts⟩ := forget_of_ofTokens h
    exact .inl ⟨b, rfl, wellNested_iff.2 ⟨b, hread, hts⟩, hts⟩
  | error e =>
    refine .inr ⟨e, rfl, ?_, ?_⟩
    · intro hnested
      obtain ⟨b, hread, hts⟩ := wellNested_iff.1 hnested
      rw [ofTokens_of_forget hread hts] at h
      cases h
    · unfold Block.ofTokens at h
      cases hfold : ts.foldlM Builder.step .empty with
      | error e' =>
        rw [hfold] at h
        cases h
        exact Builder.isNesting_of_fold hfold
      | ok b =>
        rw [hfold] at h
        change b.finish = .error e at h
        unfold Builder.finish at h
        split at h <;> cases h
        trivial

/-! ## Verdicts -/

/-- An integer literal that is out of range stands at the place. -/
def Phrase.OversizedAt (tree : Phrase) (p : Position) : Prop :=
  ∃ s ∈ tree.phrases, s.Oversized ∧ s.position = p

/-- What reading comes to if the source has the tree and the tokens. -/
inductive Verdict (tree : Phrase) (tokens : List Token) : Except ParseError Template → Prop
  | literal {p : Position} : p.IsFirst tree.OversizedAt →
    Verdict tree tokens (.error ⟨p, .literalRange⟩)
  | nesting {e : ParseError} : (∀ p, ¬tree.OversizedAt p) → ¬WellNested tokens →
    e.fault.IsNesting → Verdict tree tokens (.error e)
  | control {b : Block} {e : ParseError} : (∀ p, ¬tree.OversizedAt p) → WellNested tokens →
    Block.ofTokens tokens = .ok b → b.FirstStray e → Verdict tree tokens (.error e)
  | template {b : Block} {t : Template} : (∀ p, ¬tree.OversizedAt p) → WellNested tokens →
    Block.ofTokens tokens = .ok b → b.ControlsLoops → Verdict tree tokens (.ok t)

theorem Derives.isFirst {source : String} {tree : Phrase} (h : Derives source tree) {p : Position}
    (hp : firstOversized? [tree] = some p) : p.IsFirst tree.OversizedAt := by
  rw [firstOversized?, phrasesIn, phrasesIn, List.append_nil] at hp
  exact isFirst_of_find? h.ordered hp

theorem Phrase.not_oversizedAt {tree : Phrase} (h : firstOversized? [tree] = none) (p : Position) :
    ¬tree.OversizedAt p := by
  rw [firstOversized?, phrasesIn, phrasesIn, List.append_nil, Option.map_eq_none_iff,
    List.find?_eq_none] at h
  rintro ⟨s, hs, hoversized, -⟩
  exact h s hs (by simpa using hoversized)

theorem Derives.unique {source : String} {tree other : Phrase} (h : Derives source tree)
    (k : Derives source other) : other = tree := by
  obtain ⟨d, hd⟩ := h
  obtain ⟨e, he⟩ := k
  cases hd.unique he
  rfl

/-- What reading a source comes to whose tree stands for pieces. -/
theorem IsSource.verdict {name source : String} {options : ParserOptions} {tree : Phrase}
    {pieces : List Piece} (h : IsSource tree pieces) (hderives : Derives source tree)
    (hpieces : piecesOf source.toList = .ok pieces) :
    Verdict tree (tokensOf options false pieces) (Template.parse name source options) := by
  rw [Template.parse_eq_map, parseBlock_of_ok hpieces, ← (h.tokens options).2]
  cases hfound : firstOversized? [tree] with
  | some p => exact .literal (hderives.isFirst hfound)
  | none =>
    have hrange := Phrase.not_oversizedAt hfound
    obtain ⟨b, hb, hnested, hts⟩ | ⟨e, he, hnested, hfault⟩ :=
      ofTokens_cases (tokensOf options false pieces)
    · simp only [hb, bind, Except.bind]
      cases hstray : strayControl? false b with
      | some e =>
        have hfirst := firstStray_of_strayControl? hts (h.controls_ordered hderives options) hstray
        exact .control hrange hnested hb hfirst
      | none => exact .template hrange hnested hb ((strayControl?_eq_none_iff b).1 hstray)
    · rw [he]
      exact .nesting hrange hnested hfault

/-- A source follows the grammar or not. If not, it is refused as such. If so, it has one tree, and
the tokens are built of it without a fault, whatever the size of its integers; where integers are
bounded, the only fault is that of the first one out of range. No quoted text has a backslash left
over at its end. And the source is refused for the first kind of these that it has: an integer out
of range, a tag that does not nest, a control that no loop surrounds; of integers and of controls
the first one in the source is reported. -/
theorem building_follows_the_grammar (name source : String) (options : ParserOptions) :
    ((∀ tree, ¬Derives source tree) ∧
      ∃ p, Template.parse name source options = .error ⟨p, .grammar⟩) ∨
    ∃ tree tokens, Derives source tree ∧ (∀ other, Derives source other → other = tree) ∧
      tree.tokens false options = .ok tokens ∧
      ((∀ p, ¬tree.OversizedAt p) ∧ tree.tokens true options = .ok tokens ∨
        ∃ p, p.IsFirst tree.OversizedAt ∧
          tree.tokens true options = .error ⟨p, .literalRange⟩) ∧
      (∀ s ∈ tree.phrases, s.rule = .string →
        ∃ body, s.parts = [body] ∧ dangles body.lexeme = false) ∧
      Verdict tree tokens (Template.parse name source options) := by
  obtain ⟨pieces, tree, hpieces, hderives, hsource⟩ | ⟨⟨p, hp⟩, hnone⟩ := pieces_or_none source
  · obtain ⟨htokens, -⟩ := hsource.tokens options
    refine .inr ⟨tree, tokensOf options false pieces, hderives, fun other => hderives.unique,
      htokens false, ?_, fun s => hderives.whole_of_string, hsource.verdict hderives hpieces⟩
    cases hfound : firstOversized? [tree] with
    | none => exact .inl ⟨Phrase.not_oversizedAt hfound, by rw [htokens, hfound]; rfl⟩
    | some p => exact .inr ⟨p, hderives.isFirst hfound, by rw [htokens, hfound]; rfl⟩
  · refine .inl ⟨hnone, p, ?_⟩
    rw [Template.parse_eq_map, parseBlock_of_error hp]
    rfl

/-- Of three faults the integer counts, though it stands last, and of the others the tag. -/
example :
    (Template.parse "t" "{% break %}{% endif %}{{ 9223372036854775808 }}" .plain).map (·.name) =
        .error ⟨⟨1, 26⟩, .literalRange⟩ ∧
      (Template.parse "t" "{% break %}{% endif %}{{ 9223372036854775807 }}" .plain).map (·.name) =
        .error ⟨⟨1, 12⟩, .unexpectedTag "endif" none⟩ := by
  decide +kernel

end TemplateEngine
