import TemplateEngine.Proofs.Printing.Operands
import TemplateEngine.Proofs.Texts.Sources

/-!
# Printed sources

What is printed for an expression of a source is a source of the expression again. It is so for
every source in which parentheses open for the arguments of calls only, in which there are no
floats, and in which texts and keys are plain (`display_undoes_parsing`).
-/

namespace TemplateEngine

open Scanner

/-! ## Sources of one expression -/

/-- An expression between doubled braces. -/
def braced (s : String) : String := "\x7b\x7b " ++ s ++ " \x7d\x7d"

theorem toList_braced (s : String) :
    (braced s).toList = "\x7b\x7b".toList ++ ' ' :: (s.toList ++ ' ' :: "\x7d\x7d".toList) := by
  simp [braced, String.toList_append]

/-- An expression ends before closing braces. -/
theorem endsExpr_closingBraces : EndsExpr (' ' :: "\x7d\x7d".toList) where
  lexeme := endsLexeme_cons (by decide) (by decide) _
  closed := ⟨_, _, rfl, rfl⟩

/-! ## Reading one expression -/

theorem fails_piece_nil : Fails piece [] := by
  intro c hc
  have hcontent : Fails (firstOf [commentPiece, outputPiece, statementPiece, textPiece]) [] := by
    refine .firstOf ?_
    simp only [List.forall_mem_cons, List.not_mem_nil, false_imp_iff, implies_true, and_true]
    refine ⟨.rule <| .bind <| .exactly rfl, .rule <| .bind <| .exactly rfl,
      .rule <| .here fun _ => .bind <| .exactly rfl, .rule fun c hc => ?_⟩
    split
    · rfl
    · next hne => exact absurd (by rw [hc]; rfl) hne
  exact Fails.bind hcontent c hc

theorem scans_piecesWithin_nil (n : Nat) :
    Scans (piecesWithin n) [] fun ps r => ps = [] ∧ r = [] := by
  cases n with
  | zero => exact .pure ⟨rfl, rfl⟩
  | succ n =>
    refine .bind (.optional_none fails_piece_nil) ?_
    rintro _ _ ⟨rfl, rfl⟩
    exact .pure ⟨rfl, rfl⟩

section

variable {s : String} {Q : Expr → Prop}
  (hgap : skipGap (s.toList ++ ' ' :: "\x7d\x7d".toList) = s.toList ++ ' ' :: "\x7d\x7d".toList)
  (h : Reaches expression (s.toList ++ ' ' :: "\x7d\x7d".toList)
    (skipGap (' ' :: "\x7d\x7d".toList)) Q)

include hgap h

theorem scans_outputPiece : Scans outputPiece (braced s).toList
    fun a r => r = [] ∧ ∃ e, a = .output e ∧ Q e := by
  rw [toList_braced]
  refine .rule <| .text <| .blanks ?_
  have hskip : skipGap (' ' :: (s.toList ++ ' ' :: "\x7d\x7d".toList)) =
      s.toList ++ ' ' :: "\x7d\x7d".toList := hgap
  rw [hskip]
  refine h.blanks fun e he => ?_
  change Scans _ ("\x7d\x7d".toList ++ []) _
  exact .text <| .pure ⟨rfl, e, rfl, he⟩

theorem scans_piece : Scans piece (braced s).toList
    fun p r => r = [] ∧ ∃ e, p.content = .output e ∧ Q e := by
  have hcomment : Fails commentPiece (braced s).toList := by
    rw [toList_braced]
    exact .rule <| .bind <| .exactly rfl
  intro c hc
  have hcontent : Scans (firstOf [commentPiece, outputPiece, statementPiece, textPiece])
      (braced s).toList fun a r => r = [] ∧ ∃ e, a = .output e ∧ Q e :=
    .orElse_right hcomment <| .orElse_left <| scans_outputPiece hgap h
  obtain ⟨content, d, hreads, hd, e, rfl, he⟩ := hcontent c hc
  exact ⟨_, d, reads_bind.2 ⟨_, d, hreads, rfl⟩, hd, e, rfl, he⟩

/-- What is read as an expression is one piece between braces. -/
theorem piecesOf_of_reaches :
    ∃ lexeme e, piecesOf (braced s).toList = .ok [⟨lexeme, .output e⟩] ∧ Q e := by
  have hall : Scans (do
      let pieces ← piecesWithin (braced s).toList.length
      endOfSource
      pure pieces) (braced s).toList
      fun ps _ => ∃ p e, ps = [p] ∧ p.content = .output e ∧ Q e := by
    have hpieces : Scans (piecesWithin (braced s).toList.length) (braced s).toList
        fun ps r => r = [] ∧ ∃ p e, ps = [p] ∧ p.content = .output e ∧ Q e := by
      have hlength : ∃ n, (braced s).toList.length = n + 1 := by
        rw [toList_braced]
        exact ⟨_, rfl⟩
      obtain ⟨n, hn⟩ := hlength
      rw [hn]
      refine .bind (.optional_some (scans_piece hgap h)) ?_
      rintro _ _ ⟨p, rfl, rfl, e, hp, he⟩
      refine .bind (scans_piecesWithin_nil n) ?_
      rintro _ _ ⟨rfl, rfl⟩
      exact .pure ⟨rfl, p, e, rfl, hp, he⟩
    have hend : Scans endOfSource [] fun _ _ => True := by
      refine .rule fun c hc => ⟨(), c, ?_, trivial⟩
      unfold Reads
      dsimp only
      rw [hc]
      rfl
    refine .bind hpieces ?_
    rintro ps _ ⟨rfl, hps⟩
    exact .bind hend fun _ _ _ => .pure hps
  obtain ⟨ps, d, hreads, ⟨lexeme, content⟩, e, rfl, rfl, he⟩ :=
    hall (.start (braced s).toList) rfl
  refine ⟨lexeme, e, ?_, he⟩
  unfold piecesOf
  dsimp only
  split
  · next heq =>
    have hresult := hreads.symm.trans (congrArg Attempt.result heq)
    cases hresult
    rfl
  · next heq =>
    have hresult := hreads.symm.trans (congrArg Attempt.result heq)
    cases hresult

end

/-- What is printed for the expression between braces is one piece. -/
theorem piecesOf_braced {e : Expr} (h : e.ReadsBack) :
    ∃ lexeme e', piecesOf (braced e.display).toList = .ok [⟨lexeme, .output e'⟩] ∧
      e'.unplaced = e.unplaced :=
  piecesOf_of_reaches (h.1 _) (h.2 _ endsExpr_closingBraces)

/-! ## What a source of one expression is -/

theorem Expr.resolve_top {e : Expr} (h : ∀ x ∈ e.nodes, x.AsRead) : e.resolve .top = e := by
  have hitems : ∀ {es : List Expr}, (∀ e ∈ es, (∀ x ∈ e.nodes, x.AsRead) → e.resolve .top = e) →
      (∀ x ∈ nodesOfItems es, x.AsRead) → resolveItems .top es = es := by
    intro es hes hnodes
    induction es with
    | nil => rfl
    | cons e es ih =>
      obtain ⟨he, hrest⟩ := List.forall_mem_cons.1 hes
      obtain ⟨hhead, htail⟩ := List.forall_mem_append.1 hnodes
      rw [resolveItems, he hhead, ih hrest htail]
  have hentries : ∀ {xs : List (String × Expr)},
      (∀ x ∈ xs, (∀ y ∈ x.2.nodes, y.AsRead) → x.2.resolve .top = x.2) →
      (∀ x ∈ nodesOfEntries xs, x.AsRead) → resolveEntries .top xs = xs := by
    intro xs hxs hnodes
    induction xs with
    | nil => rfl
    | cons x xs ih =>
      obtain ⟨hx, hrest⟩ := List.forall_mem_cons.1 hxs
      obtain ⟨hhead, htail⟩ := List.forall_mem_append.1 hnodes
      rw [resolveEntries, hx hhead, ih hrest htail]
  induction e using Expr.induction with
  | literal value p => rfl
  | var ref =>
    obtain ⟨-, hscope⟩ := h _ List.mem_cons_self
    obtain ⟨name, scope, p⟩ := ref
    obtain rfl := hscope
    simp [resolve, Scope.kindOf, Scope.top]
  | member target name p ih =>
    obtain ⟨-, htarget⟩ := List.forall_mem_cons.1 h
    rw [resolve, ih htarget]
  | index target key p ih ihkey =>
    obtain ⟨htarget, hkey⟩ := List.forall_mem_append.1 (List.forall_mem_cons.1 h).2
    rw [resolve, ih htarget, ihkey hkey]
  | call callee args p ih ihargs =>
    obtain ⟨hcallee, hargs⟩ := List.forall_mem_append.1 (List.forall_mem_cons.1 h).2
    rw [resolve, ih hcallee, hitems ihargs hargs]
  | list items p ih => rw [resolve, hitems ih (List.forall_mem_cons.1 h).2]
  | map entries p ih => rw [resolve, hentries ih (List.forall_mem_cons.1 h).2]
  | unary op operand p ih => rw [resolve, ih (List.forall_mem_cons.1 h).2]
  | binary op left right p ihl ihr =>
    obtain ⟨hleft, hright⟩ := List.forall_mem_append.1 (List.forall_mem_cons.1 h).2
    rw [resolve, ihl hleft, ihr hright]

/-- Whether an integer is out of range does not depend on places. -/
theorem Expr.oversized?_unplaced (e : Expr) :
    e.unplaced.oversized? = none ↔ e.oversized? = none := by
  have hitems : ∀ {es : List Expr},
      (∀ e ∈ es, (e.unplaced.oversized? = none ↔ e.oversized? = none)) →
      (oversizedItem? (unplacedItems es) = none ↔ oversizedItem? es = none) := by
    intro es h
    induction es with
    | nil => exact Iff.rfl
    | cons e es ih =>
      obtain ⟨he, hes⟩ := List.forall_mem_cons.1 h
      simp only [unplacedItems, oversizedItem?, Option.or_eq_none_iff, he, ih hes]
  have hentries : ∀ {xs : List (String × Expr)},
      (∀ x ∈ xs, (x.2.unplaced.oversized? = none ↔ x.2.oversized? = none)) →
      (oversizedValue? (unplacedEntries xs) = none ↔ oversizedValue? xs = none) := by
    intro xs h
    induction xs with
    | nil => exact Iff.rfl
    | cons x xs ih =>
      obtain ⟨hx, hxs⟩ := List.forall_mem_cons.1 h
      simp only [unplacedEntries, oversizedValue?, Option.or_eq_none_iff, hx, ih hxs]
  induction e using Expr.induction with
  | literal value p =>
    cases value with
    | int n => simp [unplaced, oversized?]
    | _ => exact Iff.rfl
  | var ref => exact Iff.rfl
  | member target name p ih => exact ih
  | index target key p ih ihkey =>
    simp only [unplaced, oversized?, Option.or_eq_none_iff, ih, ihkey]
  | call callee args p ih ihargs =>
    simp only [unplaced, oversized?, Option.or_eq_none_iff, ih, hitems ihargs]
  | list items p ih => exact hitems ih
  | map entries p ih => exact hentries ih
  | unary op operand p ih => exact ih
  | binary op left right p ihl ihr =>
    simp only [unplaced, oversized?, Option.or_eq_none_iff, ihl, ihr]

/-- A source that is one piece with an expression is the expression. -/
theorem parse_of_piecesOf {name source : String} {options : ParserOptions} {lexeme : List Char}
    {e : Expr} (h : piecesOf source.toList = .ok [⟨lexeme, .output e⟩])
    (hsize : e.oversized? = none) :
    Template.parse name source options = .ok ⟨0, name, [.output (e.resolve .top)]⟩ := by
  refine Template.parse_eq_ok_iff.2 ⟨_, parseBlock_eq_ok_iff.2
    ⟨_, [.output e], h, ?_, rfl, rfl, rfl⟩, rfl⟩
  simp [Content.exprs, hsize]

/-- Where nothing is left of the pieces, all of them are comments. -/
theorem comment_of_tokensOf_eq_nil {options : ParserOptions} {ps : List Piece}
    (hcut : ∀ p ∈ ps, p.Cut) (h : tokensOf options false ps = []) :
    ∀ p ∈ ps, p.content = .comment := by
  induction ps with
  | nil => nofun
  | cons p ps ih =>
    obtain ⟨hp, hps⟩ := List.forall_mem_cons.1 hcut
    obtain ⟨lexeme, content⟩ := p
    cases content with
    | text =>
      have hne : lexeme.isEmpty = false := List.isEmpty_eq_false_iff.2 hp
      simp [tokensOf, hne] at h
    | comment => exact List.forall_mem_cons.2 ⟨rfl, ih hps h⟩
    | output e => cases h
    | statement t p => cases h

/-- Only an output stands where braces are doubled. -/
theorem output_of_at {p : Piece} {c d : Cursor} {rest : List Char} (h : p.At c d) (hcut : p.Cut)
    (hc : c.rest = "\x7b\x7b".toList ++ rest) : ∃ e, p.content = .output e := by
  obtain ⟨lexeme, content⟩ := p
  obtain ⟨hbehind, hcontent⟩ := h
  have hlexeme : "\x7b\x7b".toList ++ rest = lexeme ++ d.rest := hc.symm.trans hbehind.rest
  cases content with
  | text =>
    have hbegins := hcontent [] lexeme rfl hcut
    rw [← hlexeme] at hbegins
    cases hbegins
  | comment =>
    obtain ⟨body, rfl⟩ := hcontent
    cases hlexeme
  | output e => exact ⟨e, rfl⟩
  | statement t p =>
    obtain ⟨-, _, b, _, -, hopen, -⟩ := hcontent
    have hpercent := hc.symm.trans hopen.rest
    cases hpercent

/-- No comment is the last piece of a source that ends with braces. -/
theorem content_ne_comment_of_last {ps : List Piece} {p : Piece} {c d : Cursor}
    (before : List Char) (h : Laid (ps ++ [p]) c d) (hd : d.rest = [])
    (hc : c.rest = before ++ "\x7d\x7d".toList) : p.content ≠ .comment := by
  intro hcomment
  have hbody : ∃ body, p.lexeme = "\x7b#".toList ++ body ++ "#\x7d".toList := by
    have hlast : ∀ {ps : List Piece} {c : Cursor}, Laid (ps ++ [p]) c d → ∃ c', p.At c' d := by
      intro ps
      induction ps with
      | nil =>
        rintro c (_ | ⟨hp, hnil⟩)
        cases hnil
        exact ⟨c, hp⟩
      | cons q ps ih =>
        rintro c (_ | ⟨-, hrest⟩)
        exact ih hrest
    obtain ⟨c', hat⟩ := hlast h
    have hcontent := hat.2
    rw [hcomment] at hcontent
    exact hcontent
  obtain ⟨body, hbody⟩ := hbody
  have hsource := h.behind.rest
  rw [hd, List.append_nil, hc, List.flatMap_append, List.flatMap_singleton, hbody,
    ← List.append_assoc, ← List.append_assoc] at hsource
  have hend := (List.append_inj' hsource rfl).2
  cases hend

/-- The only piece of a source between braces that is one output is the output. -/
theorem pieces_of_parse {name s : String} {options : ParserOptions} {e : Expr}
    (h : Template.parse name (braced s) options = .ok ⟨0, name, [.output e]⟩) :
    ∃ lexeme e₀, piecesOf (braced s).toList = .ok [⟨lexeme, .output e₀⟩] ∧
      e = e₀.resolve .top ∧ e₀.oversized? = none := by
  obtain ⟨b, hblock, ht⟩ := Template.parse_eq_ok_iff.1 h
  obtain ⟨ps, block, hps, hsize, hread, -, rfl⟩ := parseBlock_eq_ok_iff.1 hblock
  -- the block is one output
  obtain ⟨e₀, rfl, he⟩ : ∃ e₀, block = [.output e₀] ∧ e = e₀.resolve .top := by
    have hbody : [.output e] = block.map (·.resolve .top) := by
      rw [← resolveBlock_eq_map]
      exact congrArg Template.body ht
    obtain ⟨stmt, rfl, hstmt⟩ := List.map_eq_singleton_iff.1 hbody.symm
    cases stmt with
    | output e₀ =>
      cases hstmt
      exact ⟨e₀, rfl, rfl⟩
    | choose branches otherwise => cases otherwise <;> cases hstmt
    | each ref items body otherwise p => cases otherwise <;> cases hstmt
    | _ => cases hstmt
  have htokens : (tokensOf options false ps).map Token.forget = [.output e₀] :=
    (forget_of_ofTokens hread).2
  have hcut := cut_of_piecesOf hps
  obtain ⟨d, hlaid, hd⟩ := laid_of_piecesOf hps
  have hsource := toList_braced s
  cases hlaid with
  | nil =>
    rw [hsource] at hd
    cases hd
  | @cons p ps _ d' _ hp hrest =>
    obtain ⟨hcutp, hcutps⟩ := List.forall_mem_cons.1 hcut
    obtain ⟨e₁, he₁⟩ := output_of_at hp hcutp hsource
    obtain ⟨lexeme, content⟩ := p
    obtain rfl := he₁
    obtain ⟨hhead, htail⟩ := List.cons.inj htokens
    cases hhead
    have hcomments := comment_of_tokensOf_eq_nil hcutps (List.map_eq_nil_iff.1 htail)
    obtain rfl | ⟨init, last, rfl⟩ := List.eq_nil_or_concat ps
    · refine ⟨lexeme, e₀, hps, he, ?_⟩
      simpa [Content.exprs] using hsize
    · have hall : Laid ((⟨lexeme, .output e₀⟩ :: init) ++ [last]) (.start (braced s).toList) d := by
        rw [List.cons_append, ← List.concat_eq_append]
        exact .cons hp hrest
      refine absurd (hcomments last (by simp)) (content_ne_comment_of_last
        ("\x7b\x7b".toList ++ ' ' :: (s.toList ++ [' '])) hall hd ?_)
      exact hsource.trans (by simp)

/-- The calls in the expression that a source is are counted by the parentheses of the source. -/
theorem tally_of_piecesOf {source lexeme : List Char} {e : Expr}
    (h : piecesOf source = .ok [⟨lexeme, .output e⟩]) :
    Tally e.nodes (openParens none source) := by
  obtain ⟨d, hlaid, hd⟩ := laid_of_piecesOf h
  obtain _ | ⟨⟨-, b, x, hopen, hwritten, hclose⟩, hnil⟩ := hlaid
  cases hnil
  obtain _ | ⟨hgap, hbefore, hreads, hrest⟩ := hwritten
  obtain ⟨hgap', hbehind⟩ | _ := hrest
  obtain ⟨n, hopened, htally⟩ := tallies_expression hreads
  have hbraces : Opened (0 + (0 + (n + (0 + 0)))) (.start source) d :=
    .trans (.of_isQuiet hopen (by decide)) <| .trans (.of_gap hbefore hgap) <|
      .trans hopened <| .trans (.of_gap hbehind hgap') (.of_isQuiet hclose (by decide))
  obtain ⟨text, htext, hcounted⟩ := hbraces
  have hsource : source = text ++ d.rest := htext.rest
  have hcount : openParens none source = n := by
    rw [hsource, hcounted, hd, openParens]
    omega
  rwa [hcount]

theorem openParens_braced (s : String) :
    openParens none (braced s).toList = openParens none s.toList := by
  have hopen : Counted ("\x7b\x7b".toList ++ [' ']) 0 := counted_of_isQuiet (by decide)
  have hsource : (braced s).toList =
      ("\x7b\x7b".toList ++ [' ']) ++ (s.toList ++ ' ' :: "\x7d\x7d".toList) := by
    rw [toList_braced]
    simp
  have hclose : ∀ c ∈ ' ' :: "\x7d\x7d".toList, c ≠ '(' := by simp
  rw [hsource, hopen, openParens_append hclose, Nat.zero_add]

/-- For every source in which no more parentheses open outside quoted text than the expression has
calls, so that none groups, without floats, with names for keys and with texts of printable
characters and common controls: what is printed for the expression is a source again, and the
expression of that source is the same but for the places of its nodes. -/
theorem display_undoes_parsing {name s : String} {options : ParserOptions} {e : Expr}
    (h : Template.parse name (braced s) options = .ok ⟨0, name, [.output e]⟩)
    (hparens : openParens none s.toList = e.nodes.countP (·.isCall))
    (hplain : ∀ x ∈ e.nodes, x.Plain) :
    ∃ e', Template.parse name (braced e.display) options = .ok ⟨0, name, [.output e']⟩ ∧
      e'.unplaced = e.unplaced := by
  obtain ⟨lexeme, e₀, hpieces, he, hsize⟩ := pieces_of_parse h
  have htally := tally_of_piecesOf hpieces
  -- all names of the expression are global as they were read
  obtain rfl : e = e₀ := he.trans (Expr.resolve_top htally.asRead)
  rw [openParens_braced, hparens] at htally
  have hprintable : ∀ x ∈ e.nodes, x.Printable := fun x hx =>
    ⟨htally.asRead x hx, htally.bare rfl x hx, hplain x hx⟩
  obtain ⟨lexeme', e', hpieces', hsame⟩ := piecesOf_braced (readsBack_of_nodes hprintable)
  have hsize' : e'.oversized? = none := by
    rwa [← Expr.oversized?_unplaced, hsame, Expr.oversized?_unplaced]
  refine ⟨e', ?_, hsame⟩
  rw [parse_of_piecesOf hpieces' hsize', Expr.resolve_top (tally_of_piecesOf hpieces').asRead]

/-! ## An instance -/

/-- The expression that a template is. -/
def Template.expression? : Template → Option Expr
  | ⟨_, _, [.output e]⟩ => some e
  | _ => none

/-- What is read as a template of one expression. -/
theorem parse_of_expression? {name source : String} {options : ParserOptions} {e : Expr}
    (h : (Template.parse name source options).toOption.bind Template.expression? = some e) :
    Template.parse name source options = .ok ⟨0, name, [.output e]⟩ := by
  cases hparse : Template.parse name source options with
  | error _ =>
    rw [hparse] at h
    cases h
  | ok t =>
    obtain ⟨b, -, rfl⟩ := Template.parse_eq_ok_iff.1 hparse
    rw [hparse] at h
    change Template.expression? _ = some e at h
    unfold Template.expression? at h
    split at h
    · next heq =>
      cases h
      cases heq
      rfl
    · cases h

/-- A call with a text that needs marks, and a negated map with a key in quotes. -/
def mixedExpression : String := "f(1, 'say \"x\"\\n')[0].y - -\x7b 'k' : [2, not a,] \x7d.k"

theorem mixedExpression_comes_back : ∃ e e',
    Template.parse "t" (braced mixedExpression) .plain = .ok ⟨0, "t", [.output e]⟩ ∧
    openParens none mixedExpression.toList = e.nodes.countP (·.isCall) ∧
    (∀ x ∈ e.nodes, x.Plain) ∧
    Template.parse "t" (braced e.display) .plain = .ok ⟨0, "t", [.output e']⟩ ∧
    e'.unplaced = e.unplaced := by
  have hread : (((Template.parse "t" (braced mixedExpression) .plain).toOption.bind
      Template.expression?).any fun e => openParens none mixedExpression.toList =
        e.nodes.countP (·.isCall) && e.nodes.all fun x => x.Plain) = true := by decide +kernel
  obtain ⟨e, he, htest⟩ := (Option.any_eq_true _ _).1 hread
  rw [Bool.and_eq_true, decide_eq_true_eq, List.all_eq_true] at htest
  obtain ⟨hparens, hall⟩ := htest
  have hplain : ∀ x ∈ e.nodes, x.Plain := fun x hx => of_decide_eq_true (hall x hx)
  have hparse := parse_of_expression? he
  obtain ⟨e', hdisplay, hsame⟩ := display_undoes_parsing hparse hparens hplain
  exact ⟨e, e', hparse, hparens, hplain, hdisplay, hsame⟩

end TemplateEngine
