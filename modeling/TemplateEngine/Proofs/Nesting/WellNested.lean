import TemplateEngine.Proofs.Nesting.Reading

/-!
# Well nested tags

A run of tokens is well nested if every construct in it is closed by its own tag and divided by its
own dividers (`WellNested`): `elif` and then one `else` in an `if`, one `else` in a `for`. These are
the runs that blocks flatten to (`wellNested_iff`). So building blocks inverts flattening, and it
accepts exactly the tokens that are well nested (`block_building_inverts_flattening`).
-/

namespace TemplateEngine

/-! ## The grammar of nesting -/

/-- The tag is a statement by itself. -/
def Tag.IsStatement : Tag → Bool
  | .set .. | .setGlobal .. | .return _ | .break | .continue | .include .. => true
  | _ => false

/-- The first tag opens a construct that the second closes, with nothing but a block between
them. -/
def Tag.Encloses : Tag → Tag → Bool
  | .for .., .endfor | .while _, .endwhile | .function .., .endfunction
  | .capture _, .endcapture => true
  | _, _ => false

mutual

/-- Every construct in the tokens is divided and closed by its own tags. -/
inductive WellNested : List Token → Prop
  | nil : WellNested []
  | text (content : String) {rest : List Token} :
    WellNested rest → WellNested (.text content :: rest)
  | output (value : Expr) {rest : List Token} :
    WellNested rest → WellNested (.output value :: rest)
  | statement {t : Tag} (p : Position) {rest : List Token} :
    t.IsStatement = true → WellNested rest → WellNested (.tag t p :: rest)
  | enclosed {t u : Tag} (p q : Position) {body rest : List Token} :
    t.Encloses u = true → WellNested body → WellNested rest →
      WellNested (.tag t p :: (body ++ .tag u q :: rest))
  | loopOrElse (ref : VarRef) (items : Expr) (p q r : Position) {body other rest : List Token} :
    WellNested body → WellNested other → WellNested rest →
      WellNested (.tag (.for ref items) p ::
        (body ++ .tag .else q :: (other ++ .tag .endfor r :: rest)))
  | choice (c : Expr) (p : Position) {body others rest : List Token} :
    WellNested body → OtherBranches others → WellNested rest →
      WellNested (.tag (.if c) p :: (body ++ (others ++ rest)))

/-- The tokens are what a choice goes on with behind its first branch. -/
inductive OtherBranches : List Token → Prop
  | endif (p : Position) : OtherBranches [.tag .endif p]
  | otherwise (p q : Position) {body : List Token} :
    WellNested body → OtherBranches (.tag .else p :: (body ++ [.tag .endif q]))
  | elif (c : Expr) (p : Position) {body others : List Token} :
    WellNested body → OtherBranches others →
      OtherBranches (.tag (.elif c) p :: (body ++ others))

end

theorem Tag.isStatement_iff {t : Tag} {p : Position} :
    t.IsStatement = true ↔ ∃ s, t.statement? p = some s := by
  cases t <;> simp [Tag.IsStatement, Tag.statement?]

/-- What a construct without dividers is as a statement. -/
theorem Tag.Encloses.exists_statement {t u : Tag} (h : t.Encloses u = true) (p q : Position)
    {block : Block} (hb : BlockAsRead block) : ∃ s : Stmt, s.AsRead ∧
      s.tokens = (Token.tag t p).forget :: (blockTokens block ++ [(Token.tag u q).forget]) := by
  unfold Tag.Encloses at h
  split at h
  · next ref items =>
    exact ⟨.each ref items block none p, ⟨hb, trivial⟩,
      by simp [Stmt.tokens, Token.forget, Tag.IsPlaced]⟩
  · next c => exact ⟨.repeatWhile c block p, hb, rfl⟩
  · next name params => exact ⟨.define 0 name params block p, ⟨rfl, hb⟩, rfl⟩
  · next target => exact ⟨.capture target block, hb, rfl⟩
  · cases h

mutual

/-- Well nested tokens are those of a block, by induction on the nesting. -/
theorem WellNested.exists_block : ∀ {ts : List Token}, WellNested ts →
    ∃ b, BlockAsRead b ∧ ts.map Token.forget = blockTokens b
  | _, .nil => ⟨[], trivial, rfl⟩
  | _, .text content h => by
    obtain ⟨b, hb, htokens⟩ := h.exists_block
    exact ⟨.text content :: b, ⟨trivial, hb⟩, congrArg (_ :: ·) htokens⟩
  | _, .output value h => by
    obtain ⟨b, hb, htokens⟩ := h.exists_block
    exact ⟨.output value :: b, ⟨trivial, hb⟩, congrArg (_ :: ·) htokens⟩
  | _, .statement p ht h => by
    obtain ⟨b, hb, htokens⟩ := h.exists_block
    obtain ⟨s, hs⟩ := (Tag.isStatement_iff (p := p)).1 ht
    obtain ⟨hstmt, hread⟩ := Tag.tokens_statement hs
    exact ⟨s :: b, ⟨hread, hb⟩, by simp [blockTokens, hstmt, htokens]⟩
  | _, .enclosed p q ht hbody h => by
    obtain ⟨block, hblock, hbodyTokens⟩ := hbody.exists_block
    obtain ⟨b, hb, htokens⟩ := h.exists_block
    obtain ⟨s, hs, hstmt⟩ := Tag.Encloses.exists_statement ht p q hblock
    exact ⟨s :: b, ⟨hs, hb⟩, by simp [blockTokens, hstmt, hbodyTokens, htokens]⟩
  | _, .loopOrElse ref items p _ _ hbody hother h => by
    obtain ⟨block, hblock, hbodyTokens⟩ := hbody.exists_block
    obtain ⟨other, ho, hotherTokens⟩ := hother.exists_block
    obtain ⟨b, hb, htokens⟩ := h.exists_block
    refine ⟨.each ref items block (some other) p :: b, ⟨⟨hblock, ho⟩, hb⟩, ?_⟩
    simp [blockTokens, Stmt.tokens, Token.forget, Tag.IsPlaced, hbodyTokens, hotherTokens, htokens]
  | _, .choice c _ hbody hothers h => by
    obtain ⟨block, hblock, hbodyTokens⟩ := hbody.exists_block
    obtain ⟨s, hs, hstmt⟩ := hothers.exists_choice [(c, block)] (by simp)
      ⟨hblock, trivial⟩
    obtain ⟨b, hb, htokens⟩ := h.exists_block
    refine ⟨s :: b, ⟨hs, hb⟩, ?_⟩
    simp [blockTokens, branchTokens, Token.forget, Tag.IsPlaced, hbodyTokens, hstmt, htokens]

/-- What a choice goes on with completes it, whatever branches it has. -/
theorem OtherBranches.exists_choice : ∀ {ts : List Token}, OtherBranches ts →
    ∀ done : List (Expr × Block), done ≠ [] → BranchesAsRead done →
      ∃ s : Stmt, s.AsRead ∧ s.tokens = branchTokens .if done ++ ts.map Token.forget
  | _, .endif _, done, hne, hdone =>
    ⟨.choose done none, ⟨hne, hdone, trivial⟩,
      by simp [Stmt.tokens, Token.forget, Tag.IsPlaced]⟩
  | _, .otherwise _ _ hbody, done, hne, hdone => by
    obtain ⟨block, hblock, htokens⟩ := hbody.exists_block
    refine ⟨.choose done (some block), ⟨hne, hdone, hblock⟩, ?_⟩
    simp [Stmt.tokens, Token.forget, Tag.IsPlaced, htokens]
  | _, .elif c _ hbody hothers, done, hne, hdone => by
    obtain ⟨block, hblock, htokens⟩ := hbody.exists_block
    obtain ⟨s, hs, hothersTokens⟩ := hothers.exists_choice (done ++ [(c, block)]) (by simp)
      (branchesAsRead_append.2 ⟨hdone, hblock, trivial⟩)
    refine ⟨s, hs, ?_⟩
    simp [hothersTokens, branchTokens_append, nextBranch, branchTokens, Token.forget, Tag.IsPlaced,
      htokens, hne]

end

theorem Token.map_forget_eq_tag_cons {ts us : List Token} {t : Tag} {p : Position}
    (h : ts.map Token.forget = .tag t p :: us) :
    ∃ q rest, ts = .tag t q :: rest ∧ rest.map Token.forget = us := by
  obtain ⟨u, rest, rfl, hu, hrest⟩ := List.map_eq_cons_iff.1 h
  obtain ⟨q, rfl, -⟩ := Token.forget_eq_tag hu
  exact ⟨q, rest, rfl, hrest⟩

/-- The tokens of the statement may stand before well nested tokens. -/
def Stmt.NestsWell (s : Stmt) : Prop :=
  ∀ ts, ts.map Token.forget = s.tokens → ∀ rest, WellNested rest → WellNested (ts ++ rest)

/-- The tokens of the block are well nested. -/
def NestsWellBlock (b : Block) : Prop :=
  ∀ ts, ts.map Token.forget = blockTokens b → WellNested ts

/-- A tag that is a statement by itself. -/
theorem Stmt.nestsWell_tag {s : Stmt} {t : Tag} {p : Position} (ht : t.IsStatement = true)
    (hs : s.tokens = [.tag t p]) : s.NestsWell := by
  intro ts hts rest hrest
  obtain ⟨q, us, rfl, hus⟩ := Token.map_forget_eq_tag_cons (hts.trans hs)
  rw [List.map_eq_nil_iff.1 hus]
  exact .statement q ht hrest

/-- A construct without dividers. -/
theorem Stmt.nestsWell_enclosed {s : Stmt} {t u : Tag} {p q : Position} {body : Block}
    (htu : t.Encloses u = true) (hbody : NestsWellBlock body)
    (hs : s.tokens = .tag t p :: (blockTokens body ++ [.tag u q])) : s.NestsWell := by
  intro ts hts rest hrest
  obtain ⟨p', us, rfl, hus⟩ := Token.map_forget_eq_tag_cons (hts.trans hs)
  obtain ⟨inner, last, rfl, hinner, hlast⟩ := List.map_eq_append_iff.1 hus
  obtain ⟨q', _, rfl, hnil⟩ := Token.map_forget_eq_tag_cons hlast
  rw [List.map_eq_nil_iff.1 hnil]
  simpa using WellNested.enclosed p' q' htu (hbody inner hinner) hrest

/-- What a choice goes on with behind a branch, by induction on the branches that follow. -/
theorem otherBranches_of_forget {otherwise : Option Block}
    (ho : ∀ block ∈ otherwise, NestsWellBlock block) {branches : List (Expr × Block)}
    (hbranches : ∀ x ∈ branches, NestsWellBlock x.2) {ts : List Token}
    (hts : ts.map Token.forget = branchTokens .elif branches ++
      ((match otherwise with
        | none => []
        | some block => .tag .else .unknown :: blockTokens block) ++ [.tag .endif .unknown])) :
    OtherBranches ts := by
  induction branches generalizing ts with
  | nil =>
    cases otherwise with
    | none =>
      obtain ⟨p, _, rfl, hnil⟩ := Token.map_forget_eq_tag_cons hts
      rw [List.map_eq_nil_iff.1 hnil]
      exact .endif p
    | some block =>
      obtain ⟨p, us, rfl, hus⟩ := Token.map_forget_eq_tag_cons hts
      obtain ⟨inner, last, rfl, hinner, hlast⟩ := List.map_eq_append_iff.1 hus
      obtain ⟨q, _, rfl, hnil⟩ := Token.map_forget_eq_tag_cons hlast
      rw [List.map_eq_nil_iff.1 hnil]
      exact .otherwise p q (ho block rfl inner hinner)
  | cons x rest ih =>
    obtain ⟨c, body⟩ := x
    rw [List.forall_mem_cons] at hbranches
    simp only [branchTokens, List.append_assoc, List.cons_append] at hts
    obtain ⟨p, us, rfl, hus⟩ := Token.map_forget_eq_tag_cons hts
    obtain ⟨inner, others, rfl, hinner, hothers⟩ := List.map_eq_append_iff.1 hus
    exact .elif c p (hbranches.1 inner hinner) (ih hbranches.2 hothers)

mutual

/-- The tokens of a statement as it is read are well nested. -/
theorem Stmt.nestsWell : ∀ s : Stmt, s.AsRead → s.NestsWell
  | .text content, _ => by
    intro ts hts rest hrest
    obtain ⟨u, rfl, hu⟩ := List.map_eq_singleton_iff.1 hts
    rw [Token.forget_eq_text hu]
    exact .text content hrest
  | .output value, _ => by
    intro ts hts rest hrest
    obtain ⟨u, rfl, hu⟩ := List.map_eq_singleton_iff.1 hts
    rw [Token.forget_eq_output hu]
    exact .output value hrest
  | .assign .., _ | .assignGlobal .., _ | .leave .., _ | .stop _, _ | .next _, _
  | .include .., _ => Stmt.nestsWell_tag rfl rfl
  | .choose [] _, h => by
    unfold Stmt.AsRead at h
    exact absurd rfl h.1
  | .choose ((c, body) :: branches) otherwise, h => by
    unfold Stmt.AsRead BranchesAsRead at h
    obtain ⟨-, ⟨hbody, hbranches⟩, ho⟩ := h
    have hotherwise : ∀ block ∈ otherwise, NestsWellBlock block := by
      cases otherwise with
      | none => nofun
      | some block =>
        rintro _ ⟨⟩
        exact nestsWell_block block ho
    intro ts hts rest hrest
    unfold Stmt.tokens branchTokens at hts
    simp only [List.append_assoc, List.cons_append] at hts
    obtain ⟨p, us, rfl, hus⟩ := Token.map_forget_eq_tag_cons hts
    obtain ⟨inner, others, rfl, hinner, hothers⟩ := List.map_eq_append_iff.1 hus
    rw [List.cons_append, List.append_assoc]
    exact .choice c p (nestsWell_block body hbody inner hinner)
      (otherBranches_of_forget hotherwise (nestsWell_branches branches hbranches) hothers) hrest
  | .each ref items body none p, h => by
    unfold Stmt.AsRead at h
    exact Stmt.nestsWell_enclosed (t := .for ref items) (u := .endfor) (p := p) (q := .unknown)
      rfl (nestsWell_block body h.1) (by simp [Stmt.tokens])
  | .each ref items body (some other) _, h => by
    unfold Stmt.AsRead at h
    intro ts hts rest hrest
    simp only [Stmt.tokens, List.append_assoc, List.cons_append] at hts
    obtain ⟨p, us, rfl, hus⟩ := Token.map_forget_eq_tag_cons hts
    obtain ⟨inner, others, rfl, hinner, hothers⟩ := List.map_eq_append_iff.1 hus
    obtain ⟨q, vs, rfl, hvs⟩ := Token.map_forget_eq_tag_cons hothers
    obtain ⟨second, last, rfl, hsecond, hlast⟩ := List.map_eq_append_iff.1 hvs
    obtain ⟨r, _, rfl, hnil⟩ := Token.map_forget_eq_tag_cons hlast
    rw [List.map_eq_nil_iff.1 hnil]
    simpa using WellNested.loopOrElse ref items p q r (nestsWell_block body h.1 inner hinner)
      (nestsWell_block other h.2 second hsecond) hrest
  | .repeatWhile _ body _, h => by
    unfold Stmt.AsRead at h
    exact Stmt.nestsWell_enclosed rfl (nestsWell_block body h) rfl
  | .define _ _ _ body _, h => by
    unfold Stmt.AsRead at h
    exact Stmt.nestsWell_enclosed rfl (nestsWell_block body h.2) rfl
  | .capture _ body, h => by
    unfold Stmt.AsRead at h
    exact Stmt.nestsWell_enclosed rfl (nestsWell_block body h) rfl

theorem nestsWell_block : ∀ b : List Stmt, BlockAsRead b → NestsWellBlock b
  | [], _ => by
    intro ts hts
    rw [List.map_eq_nil_iff.1 hts]
    exact .nil
  | s :: rest, h => by
    unfold BlockAsRead at h
    intro ts hts
    obtain ⟨first, others, rfl, hfirst, hothers⟩ := List.map_eq_append_iff.1 hts
    exact s.nestsWell h.1 first hfirst others (nestsWell_block rest h.2 others hothers)

theorem nestsWell_branches : ∀ bs : List (Expr × List Stmt), BranchesAsRead bs →
    ∀ x ∈ bs, NestsWellBlock x.2
  | [], _ => nofun
  | (_, body) :: rest, h => by
    unfold BranchesAsRead at h
    exact List.forall_mem_cons.2 ⟨nestsWell_block body h.1, nestsWell_branches rest h.2⟩

end

/-- Tokens are well nested if and only if a block flattens to them. -/
theorem wellNested_iff {ts : List Token} :
    WellNested ts ↔ ∃ b, BlockAsRead b ∧ ts.map Token.forget = blockTokens b :=
  ⟨WellNested.exists_block, fun ⟨b, hb, hts⟩ => nestsWell_block b hb ts hts⟩

/-! ## Building inverts flattening -/

theorem Token.forget_tag_unknown (t : Tag) :
    (Token.tag t .unknown).forget = .tag t .unknown := by
  simp [forget]

mutual

/-- What a statement is written with has no places to forget. -/
theorem Stmt.map_forget_tokens : ∀ s : Stmt, s.tokens.map Token.forget = s.tokens
  | .text _ | .output _ | .assign .. | .assignGlobal .. | .leave .. | .stop _ | .next _
  | .include .. => rfl
  | .choose branches otherwise => by
    unfold Stmt.tokens
    cases otherwise with
    | none => simp [map_forget_branchTokens .if branches, Token.forget_tag_unknown]
    | some block =>
      simp [map_forget_branchTokens .if branches, map_forget_blockTokens block,
        Token.forget_tag_unknown]
  | .each _ _ body none _ => by
    simp [Stmt.tokens, map_forget_blockTokens body, Token.forget, Tag.IsPlaced]
  | .each _ _ body (some block) _ => by
    simp [Stmt.tokens, map_forget_blockTokens body, map_forget_blockTokens block, Token.forget,
      Tag.IsPlaced]
  | .repeatWhile _ body _ | .define _ _ _ body _ | .capture _ body => by
    simp [Stmt.tokens, map_forget_blockTokens body, Token.forget, Tag.IsPlaced]

theorem map_forget_blockTokens : ∀ b : List Stmt, (blockTokens b).map Token.forget = blockTokens b
  | [] => rfl
  | s :: rest => by
    unfold blockTokens
    rw [List.map_append, s.map_forget_tokens, map_forget_blockTokens rest]

theorem map_forget_branchTokens (begins : Expr → Tag) : ∀ bs : List (Expr × List Stmt),
    (branchTokens begins bs).map Token.forget = branchTokens begins bs
  | [] => rfl
  | (c, body) :: rest => by
    unfold branchTokens
    rw [List.map_append, List.map_cons, Token.forget_tag_unknown, map_forget_blockTokens body,
      map_forget_branchTokens .elif rest]

end

/-- A block that is flattened is read as that block. Tokens are read as a block exactly if the block
flattens to them, and they are read as some block exactly if they are well nested. -/
theorem block_building_inverts_flattening :
    (∀ b, Block.ofTokens (blockTokens b) = .ok b ↔ BlockAsRead b) ∧
      (∀ ts b,
        Block.ofTokens ts = .ok b ↔ BlockAsRead b ∧ ts.map Token.forget = blockTokens b) ∧
      ∀ ts, (∃ b, Block.ofTokens ts = .ok b) ↔ WellNested ts := by
  have hiff (ts : List Token) (b : Block) :
      Block.ofTokens ts = .ok b ↔ BlockAsRead b ∧ ts.map Token.forget = blockTokens b :=
    ⟨forget_of_ofTokens, fun ⟨hb, hts⟩ => ofTokens_of_forget hb hts⟩
  refine ⟨fun b => ?_, hiff, fun ts => ?_⟩
  · rw [hiff, and_iff_left (map_forget_blockTokens b)]
  · rw [wellNested_iff]
    exact exists_congr (hiff ts)

end TemplateEngine
