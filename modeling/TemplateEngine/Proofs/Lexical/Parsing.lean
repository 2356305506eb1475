import TemplateEngine.Library.Loader
import TemplateEngine.Proofs.Lexical.Names

/-!
# Templates that were read are lexical

Only two tags name a global by themselves, and they say so (`Tag.NamesGlobals`). What is built of
tags names globals in the same places, and then every other name is given its scope. So a source is
read as a lexical template, if it is read at all (`lexical_of_parse`), and so are the templates of a
loader that reads sources.
-/

namespace TemplateEngine

/-! ## What scanners give -/

/-- Whatever the scanner reads, its value has the property. -/
def Scanner.Gives {α : Type} (Q : α → Prop) (p : Scanner α) : Prop :=
  ∀ c a c', (p c).result = some (a, c') → Q a

namespace Scanner.Gives

variable {α β : Type} {Q : α → Prop} {R : β → Prop} {p q : Scanner α}

theorem pure {a : α} (h : Q a) : Gives Q (pure a : Scanner α) := by
  rintro c _ _ ⟨⟩
  exact h

theorem bind {f : α → Scanner β} (hp : Gives Q p) (hf : ∀ a, Q a → Gives R (f a)) :
    Gives R (p >>= f) := by
  intro c b c' h
  rw [result_bind, Option.bind_eq_some_iff] at h
  obtain ⟨⟨a, d⟩, hr, h⟩ := h
  exact hf a (hp c a d hr) d b c' h

theorem any (p : Scanner α) : Gives (fun _ => True) p := fun _ _ _ _ => trivial

/-- The value comes from the last part. -/
theorem last {f : α → Scanner β} (hf : ∀ a, Gives R (f a)) : Gives R (p >>= f) :=
  .bind (any p) fun a _ => hf a

theorem fail : Gives Q (Scanner.fail : Scanner α) := nofun

theorem orElse (hp : Gives Q p) (hq : Gives Q q) : Gives Q (orElse p q) := by
  intro c a c' h
  unfold Scanner.orElse at h
  rcases hr : p c with ⟨_ | r, reach⟩
  · rw [hr] at h
    exact hq c a c' h
  · rw [hr] at h
    exact hp c a c' (hr ▸ h)

theorem firstOf {ps : List (Scanner α)} (h : ∀ p ∈ ps, Gives Q p) : Gives Q (firstOf ps) := by
  induction ps with
  | nil => exact fail
  | cons p rest ih =>
    rw [List.forall_mem_cons] at h
    exact .orElse h.1 (ih h.2)

theorem rule (hp : Gives Q p) : Gives Q (rule p) := by
  intro c a c' h
  unfold Scanner.rule at h
  rcases hr : p c with ⟨_ | r, reach⟩
  · rw [hr] at h
    cases h
  · rw [hr] at h
    exact hp c a c' (hr ▸ h)

theorem optional (hp : Gives Q p) : Gives (fun x => ∀ a ∈ x, Q a) (optional p) :=
  .orElse (.bind hp fun a ha => .pure (by rintro _ ⟨⟩; exact ha)) (.pure nofun)

end Scanner.Gives

/-! ## Tags -/

/-- A tag that names a global says so. -/
def Tag.NamesGlobals : Tag → Prop
  | .setGlobal ref _ => ref.scope = .global
  | .function name _ => name.scope = .global
  | _ => True

open Scanner

theorem gives_bound (scope : ScopeKind) : Gives (fun ref => ref.scope = scope) (bound scope) :=
  .last fun _ => .last fun _ => .pure rfl

theorem gives_bareTag {t : Tag} (h : t.NamesGlobals) : Gives Tag.NamesGlobals (bareTag t) :=
  .rule (.last fun _ => .pure h)

theorem gives_exprTag (word : String) {make : Expr → Tag} (h : ∀ e, (make e).NamesGlobals) :
    Gives Tag.NamesGlobals (exprTag word make) :=
  .rule (.last fun _ => .last fun _ => .last fun e => .pure (h e))

theorem gives_globalTag : Gives Tag.NamesGlobals globalTag :=
  .rule <| .last fun _ => .last fun _ => .bind (gives_bound .global) fun _ href =>
    .last fun _ => .last fun _ => .last fun _ => .last fun _ => .pure href

theorem gives_functionTag : Gives Tag.NamesGlobals functionTag :=
  .rule <| .last fun _ => .last fun _ => .bind (gives_bound .global) fun _ hname =>
    .last fun _ => .last fun _ => .last fun _ => .last fun _ => .last fun _ => .last fun _ =>
    .pure hname

/-- The tags other than these two name no global. -/
theorem gives_tag : Gives Tag.NamesGlobals tag := by
  refine .firstOf ?_
  simp only [List.forall_mem_cons, List.not_mem_nil, false_imp_iff, implies_true, and_true]
  refine ⟨?_, gives_globalTag, gives_exprTag _ fun _ => trivial, gives_exprTag _ fun _ => trivial,
    gives_bareTag trivial, gives_bareTag trivial, ?_, gives_bareTag trivial,
    gives_exprTag _ fun _ => trivial, gives_bareTag trivial, gives_bareTag trivial,
    gives_bareTag trivial, gives_functionTag, gives_bareTag trivial, ?_, ?_, gives_bareTag trivial,
    ?_⟩
  · exact .rule <| .last fun _ => .last fun _ => .last fun _ => .last fun _ => .last fun _ =>
      .last fun _ => .last fun _ => .pure trivial
  · exact .rule <| .last fun _ => .last fun _ => .last fun _ => .last fun _ => .last fun _ =>
      .last fun _ => .last fun _ => .pure trivial
  · exact .rule <| .last fun _ => .last fun _ => .last fun _ => .pure trivial
  · exact .rule <| .last fun _ => .last fun _ => .last fun _ => .pure trivial
  · exact .rule <| .last fun _ => .last fun _ => .last fun _ => .last fun _ => .last fun _ =>
      .pure trivial

/-! ## Pieces and tokens -/

/-- A tag in the source names its globals as globals. -/
def Content.NamesGlobals : Content → Prop
  | .statement t _ => t.NamesGlobals
  | _ => True

theorem gives_piece : Gives (fun p => p.content.NamesGlobals) piece := by
  have hcontent : Gives Content.NamesGlobals
      (firstOf [commentPiece, outputPiece, statementPiece, textPiece]) := by
    refine .firstOf ?_
    simp only [List.forall_mem_cons, List.not_mem_nil, false_imp_iff, implies_true, and_true]
    refine ⟨?_, ?_, ?_, ?_⟩
    · exact .rule <| .last fun _ => .last fun _ => .last fun _ => .pure trivial
    · exact .rule <| .last fun _ => .last fun _ => .last fun _ => .last fun _ => .last fun _ =>
        .pure trivial
    · exact .rule <| .last fun _ => .last fun _ => .last fun _ => .bind gives_tag fun _ ht =>
        .last fun _ => .last fun _ => .pure ht
    · refine .rule fun c a c' h => ?_
      split at h
      · cases h
      · cases h
        trivial
  intro c p c' h
  refine Gives.bind (R := fun p : Piece => p.content.NamesGlobals) hcontent ?_ c p c' h
  rintro content hc c a _ ⟨⟩
  exact hc

theorem gives_piecesWithin (n : Nat) :
    Gives (fun ps => ∀ p ∈ ps, p.content.NamesGlobals) (piecesWithin n) := by
  induction n with
  | zero => exact .pure nofun
  | succ n ih =>
    refine .bind (.optional gives_piece) ?_
    rintro (_ | p) hp
    · exact .pure nofun
    · exact .bind ih fun rest hrest => .pure (List.forall_mem_cons.2 ⟨hp p rfl, hrest⟩)

theorem namesGlobals_of_piecesOf {source : List Char} {ps : List Piece}
    (h : piecesOf source = .ok ps) : ∀ p ∈ ps, p.content.NamesGlobals := by
  have hall : Gives (fun ps : List Piece => ∀ p ∈ ps, p.content.NamesGlobals)
      (do
        let pieces ← piecesWithin source.length
        endOfSource
        pure pieces) :=
    .bind (gives_piecesWithin _) fun _ hps => .last fun _ => .pure hps
  unfold piecesOf at h
  dsimp only at h
  split at h
  · next heq =>
    cases h
    exact hall _ _ _ (congrArg Attempt.result heq)
  · cases h

/-- A tag among the tokens names its globals as globals. -/
def Token.NamesGlobals : Token → Prop
  | .tag t _ => t.NamesGlobals
  | _ => True

theorem namesGlobals_tokensOf (options : ParserOptions) {ps : List Piece} (afterTag : Bool)
    (h : ∀ p ∈ ps, p.content.NamesGlobals) :
    ∀ t ∈ tokensOf options afterTag ps, t.NamesGlobals := by
  induction ps generalizing afterTag with
  | nil => nofun
  | cons p rest ih =>
    rw [List.forall_mem_cons] at h
    obtain ⟨hp, hrest⟩ := h
    unfold tokensOf
    split
    · generalize (if afterTag && options.trimBlocks then dropLineBreak p.lexeme
        else p.lexeme) = text
      dsimp only
      split
      · exact ih false hrest
      · exact List.forall_mem_cons.2 ⟨trivial, ih false hrest⟩
    · exact ih false hrest
    · exact List.forall_mem_cons.2 ⟨trivial, ih false hrest⟩
    · next tag position heq =>
      rw [heq] at hp
      exact List.forall_mem_cons.2 ⟨hp, ih true hrest⟩

/-! ## Blocks -/

/-- The block names its globals as globals. -/
def Block.NamesGlobals (b : Block) : Prop := ∀ ref ∈ globalRefs b, ref.scope = .global

theorem globalRefs_append (b c : Block) : globalRefs (b ++ c) = globalRefs b ++ globalRefs c := by
  induction b with
  | nil => rfl
  | cons s rest ih => simp only [List.cons_append, globalRefs, ih, List.append_assoc]

theorem globalRefsInBranches_append (bs cs : List (Expr × Block)) :
    globalRefsInBranches (bs ++ cs) = globalRefsInBranches bs ++ globalRefsInBranches cs := by
  induction bs with
  | nil => rfl
  | cons x rest ih => simp only [List.cons_append, globalRefsInBranches, ih, List.append_assoc]

theorem globalRefs_reverse {b : Block} (h : Block.NamesGlobals b) :
    Block.NamesGlobals b.reverse := by
  induction b with
  | nil => exact h
  | cons s rest ih =>
    simp only [Block.NamesGlobals, globalRefs, List.reverse_cons, globalRefs_append,
      List.append_nil, List.forall_mem_append] at h ih ⊢
    exact ⟨ih h.2, h.1⟩

/-- What has been read of an open construct names its globals as globals. -/
def Opening.NamesGlobals : Opening → Prop
  | .branch done _ => ∀ ref ∈ globalRefsInBranches done, ref.scope = .global
  | .otherwise branches => ∀ ref ∈ globalRefsInBranches branches, ref.scope = .global
  | .eachOtherwise _ _ body => Block.NamesGlobals body
  | .function name _ => name.scope = .global
  | .each _ _ | .while _ | .capture _ => True

/-- What a tag makes of an open construct names its globals as globals. -/
def Turn.NamesGlobals : Turn → Prop
  | .divides opening => opening.NamesGlobals
  | .closes s => ∀ ref ∈ s.globalRefs, ref.scope = .global

theorem Opening.NamesGlobals.turn {o : Opening} {body : Block} {position : Position} {tag : Tag}
    {t : Turn} (ho : o.NamesGlobals) (hb : Block.NamesGlobals body)
    (h : o.turn? body position tag = some t) : t.NamesGlobals := by
  unfold Opening.turn? at h
  split at h <;> cases h <;>
    simp_all [Turn.NamesGlobals, Opening.NamesGlobals, Block.NamesGlobals, Stmt.globalRefs,
      globalRefsInBranches, globalRefsInBranches_append, or_imp]

theorem Tag.NamesGlobals.statement {tag : Tag} {position : Position} {s : Stmt}
    (ht : tag.NamesGlobals) (h : tag.statement? position = some s) :
    ∀ ref ∈ s.globalRefs, ref.scope = .global := by
  cases tag with
  | setGlobal ref value =>
    cases h
    exact List.forall_mem_singleton.2 ht
  | set | «return» | «break» | «continue» | «include» =>
    cases h
    exact nofun
  | _ => cases h

theorem Tag.NamesGlobals.opening {tag : Tag} {o : Opening} (ht : tag.NamesGlobals)
    (h : tag.opens? = some o) : o.NamesGlobals := by
  cases tag with
  | function name params =>
    cases h
    exact ht
  | «if» c =>
    cases h
    exact nofun
  | «for» | «while» | capture =>
    cases h
    trivial
  | _ => cases h

/-- What has been read so far names its globals as globals. -/
structure Builder.NamesGlobals (b : Builder) : Prop where
  current : Block.NamesGlobals b.current
  levels : ∀ l ∈ b.levels, l.opening.NamesGlobals ∧ Block.NamesGlobals l.before

namespace Builder.NamesGlobals

variable {b c : Builder}

theorem add (h : b.NamesGlobals) {s : Stmt} (hs : ∀ ref ∈ s.globalRefs, ref.scope = .global) :
    (b.add s).NamesGlobals := by
  refine ⟨?_, h.levels⟩
  simp only [Builder.add, Block.NamesGlobals, globalRefs, List.forall_mem_append]
  exact ⟨hs, h.current⟩

theorem turn (h : b.NamesGlobals) {tag : Tag} {position : Position}
    (hc : b.turn tag position = .ok c) : c.NamesGlobals := by
  obtain ⟨levels, current⟩ := b
  unfold Builder.turn at hc
  rcases levels with _ | ⟨level, outer⟩
  · cases hc
  · obtain ⟨⟨hopening, hbefore⟩, houter⟩ := List.forall_mem_cons.1 h.levels
    dsimp only at hc
    split at hc
    · cases hc
    · next opening hturn =>
      cases hc
      exact ⟨nofun, List.forall_mem_cons.2
        ⟨⟨hopening.turn (globalRefs_reverse h.current) hturn, hbefore⟩, houter⟩⟩
    · next s hturn =>
      cases hc
      refine ⟨?_, houter⟩
      simp only [Block.NamesGlobals, globalRefs, List.forall_mem_append]
      exact ⟨hopening.turn (globalRefs_reverse h.current) hturn, hbefore⟩

theorem step (h : b.NamesGlobals) {t : Token} (ht : t.NamesGlobals) (hc : b.step t = .ok c) :
    c.NamesGlobals := by
  unfold Builder.step at hc
  split at hc
  · cases hc
    exact h.add nofun
  · cases hc
    exact h.add nofun
  · next tag position =>
    split at hc
    · next s hs =>
      cases hc
      exact h.add (Tag.NamesGlobals.statement ht hs)
    · split at hc
      · next opening ho =>
        cases hc
        exact ⟨nofun, List.forall_mem_cons.2
          ⟨⟨Tag.NamesGlobals.opening ht ho, h.current⟩, h.levels⟩⟩
      · exact h.turn hc

theorem foldlM {ts : List Token} (h : b.NamesGlobals) (hts : ∀ t ∈ ts, t.NamesGlobals)
    (hc : ts.foldlM Builder.step b = .ok c) : c.NamesGlobals := by
  induction ts generalizing b with
  | nil =>
    cases hc
    exact h
  | cons t rest ih =>
    rw [List.forall_mem_cons] at hts
    rw [List.foldlM_cons] at hc
    cases hstep : b.step t with
    | error e =>
      rw [hstep] at hc
      cases hc
    | ok b' =>
      rw [hstep] at hc
      exact ih (h.step hts.1 hstep) hts.2 hc

end Builder.NamesGlobals

theorem namesGlobals_ofTokens {ts : List Token} {b : Block} (hts : ∀ t ∈ ts, t.NamesGlobals)
    (h : Block.ofTokens ts = .ok b) : Block.NamesGlobals b := by
  unfold Block.ofTokens at h
  cases hfold : ts.foldlM Builder.step .empty with
  | error e =>
    rw [hfold] at h
    cases h
  | ok builder =>
    rw [hfold] at h
    have hb : builder.NamesGlobals :=
      Builder.NamesGlobals.foldlM (b := .empty) ⟨nofun, nofun⟩ hts hfold
    change builder.finish = .ok b at h
    unfold Builder.finish at h
    split at h
    · cases h
      exact globalRefs_reverse hb.current
    · cases h

/-! ## Templates -/

/-- A source that can be read is read as a lexical block. -/
theorem lexical_of_parseBlock {source : String} {options : ParserOptions} {b : Block}
    (h : parseBlock source options = .ok b) : Block.Lexical noName b := by
  cases hp : piecesOf source.toList with
  | error p =>
    rw [parseBlock_of_error hp] at h
    cases h
  | ok ps =>
    rw [parseBlock_of_ok hp] at h
    simp only [bind, Except.bind] at h
    split at h
    · cases h
    · split at h
      · cases h
      · next block hblock =>
        split at h
        · cases h
        · cases h
          exact Block.lexical_resolve (namesGlobals_ofTokens
            (namesGlobals_tokensOf options false (namesGlobals_of_piecesOf hp)) hblock)

/-- A source that can be read is read as a lexical template. -/
theorem lexical_of_parse {name source : String} {options : ParserOptions} {t : Template}
    (h : Template.parse name source options = .ok t) : t.Lexical := by
  unfold Template.parse at h
  cases hb : parseBlock source options with
  | error e =>
    rw [hb] at h
    cases h
  | ok b =>
    rw [hb] at h
    cases h
    exact lexical_of_parseBlock hb

/-- Every template that the loader gives is lexical. -/
def Loader.Lexical (l : Loader) : Prop :=
  ∀ name options t, l.load name options = .ok t → t.Lexical

theorem Loader.Reads.lexical {l : Loader} (h : l.Reads) : l.Lexical := fun name options t ht =>
  have ⟨_, hparse⟩ := h name options t ht
  lexical_of_parse hparse

/-- A loader of sources in memory gives what was read. -/
theorem Shelf.lexical_loader (s : Shelf) : s.loader.Lexical := s.reads_loader.lexical

/-- A loader of files gives what was read. -/
theorem Loader.lexical_ofFiles (read : String → Except ReadFault String) :
    (Loader.ofFiles read).Lexical := (reads_ofFiles read).lexical

end TemplateEngine
