import TemplateEngine.Proofs.Nesting.Stages
import TemplateEngine.Proofs.Nesting.WellNested

/-!
# Where nesting goes wrong

Tokens are viable if some continuation makes them well nested. These are the tokens that can be
taken in (`viable_iff`): whatever is open can still be closed (`Builder.exists_closed`). So the
first tag that is refused is the first one behind which nothing helps any more. If no tag is
refused, some construct is left open, and what stands behind its opening tag is blocks and dividers
of that very construct (`Unfinished`). So the place of an error is that of its cause
(`ofTokens_blames_the_cause`).
-/

namespace TemplateEngine

/-- Some continuation makes the tokens well nested. -/
def Viable (ts : List Token) : Prop := ∃ more, WellNested (ts ++ more)

theorem Viable.of_append {ts us : List Token} (h : Viable (ts ++ us)) : Viable ts := by
  obtain ⟨more, hmore⟩ := h
  exact ⟨us ++ more, by rwa [← List.append_assoc]⟩

/-- The tokens are what a construct has come to behind its opening tag, with nothing else left
open: its blocks so far and the tags that divide them. -/
inductive Unfinished : Tag → List Token → Prop
  | body {t : Tag} {o : Opening} {body : List Token} :
    t.opens? = some o → WellNested body → Unfinished t body
  | elif (c d : Expr) (p : Position) {body others : List Token} :
    WellNested body → Unfinished (.if d) others →
      Unfinished (.if c) (body ++ .tag (.elif d) p :: others)
  | otherwise (c : Expr) (p : Position) {body other : List Token} :
    WellNested body → WellNested other → Unfinished (.if c) (body ++ .tag .else p :: other)
  | loopOrElse (ref : VarRef) (items : Expr) (p : Position) {body other : List Token} :
    WellNested body → WellNested other →
      Unfinished (.for ref items) (body ++ .tag .else p :: other)

/-! ## Tokens that can be taken in -/

/-- Every construct has a tag that closes it. -/
theorem Opening.exists_closes (o : Opening) (body : Block) (p : Position) :
    ∃ t s, o.turn? body p t = some (.closes s) := by
  cases o with
  | branch done c => exact ⟨.endif, _, rfl⟩
  | otherwise branches => exact ⟨.endif, _, rfl⟩
  | each ref items => exact ⟨.endfor, _, rfl⟩
  | eachOtherwise ref items done => exact ⟨.endfor, _, rfl⟩
  | «while» c => exact ⟨.endwhile, _, rfl⟩
  | function name params => exact ⟨.endfunction, _, rfl⟩
  | capture target => exact ⟨.endcapture, _, rfl⟩

namespace Builder

/-- What is open can be closed, by induction on the open constructs. -/
theorem exists_closed (b : Builder) : ∃ more c, b.Reads more c ∧ c.levels = [] := by
  obtain ⟨levels, current⟩ := b
  induction levels generalizing current with
  | nil => exact ⟨[], _, rfl, rfl⟩
  | cons l outer ih =>
    obtain ⟨t, s, hturn⟩ := l.opening.exists_closes current.reverse l.position
    obtain ⟨more, c, hmore, hc⟩ := ih (s :: l.before)
    refine ⟨.tag t l.position :: more, c, .cons ?_ hmore, hc⟩
    rw [step_turn hturn]
    simp [turn, hturn]

theorem Reads.of_append {b d : Builder} {ts us : List Token} (h : b.Reads (ts ++ us) d) :
    ∃ c, b.Reads ts c ∧ c.Reads us d := by
  unfold Reads at *
  rw [List.foldlM_append] at h
  cases hts : ts.foldlM step b with
  | error e =>
    rw [hts] at h
    cases h
  | ok c =>
    rw [hts] at h
    exact ⟨c, rfl, h⟩

theorem ofTokens_of_reads {ts : List Token} {b : Builder} (h : Builder.empty.Reads ts b) :
    Block.ofTokens ts = b.finish := by
  unfold Block.ofTokens
  rw [h]
  rfl

/-- Well nested tokens are taken in with nothing left open, and no others are. -/
theorem wellNested_iff_reads {ts : List Token} :
    WellNested ts ↔ ∃ b, Builder.empty.Reads ts b ∧ b.levels = [] := by
  constructor
  · intro h
    obtain ⟨block, hblock, htokens⟩ := wellNested_iff.1 h
    exact ⟨_, readsAsBlock_tokens block hblock ts htokens .empty, rfl⟩
  · rintro ⟨b, hb, hlevels⟩
    refine wellNested_iff.2 ⟨b.current.reverse, forget_of_ofTokens ?_⟩
    rw [ofTokens_of_reads hb]
    simp [finish, hlevels]

end Builder

/-- Tokens are viable if and only if they can be taken in. -/
theorem viable_iff {ts : List Token} : Viable ts ↔ ∃ b, Builder.empty.Reads ts b := by
  constructor
  · rintro ⟨more, hmore⟩
    obtain ⟨_, hread, -⟩ := Builder.wellNested_iff_reads.1 hmore
    obtain ⟨b, hb, -⟩ := hread.of_append
    exact ⟨b, hb⟩
  · rintro ⟨b, hb⟩
    obtain ⟨more, c, hmore, hc⟩ := b.exists_closed
    exact ⟨more, Builder.wellNested_iff_reads.2 ⟨c, hb.append hmore, hc⟩⟩

/-! ## The tag that is refused -/

namespace Builder

/-- Only tags are refused, and they are where the error is. -/
theorem exists_tag_of_step_error {b : Builder} {u : Token} {e : ParseError}
    (h : b.step u = .error e) : ∃ t, u = .tag t e.position := by
  cases u with
  | text content => cases h
  | output value => cases h
  | tag t p =>
    refine ⟨t, ?_⟩
    unfold step at h
    dsimp only at h
    split at h
    · cases h
    · split at h
      · cases h
      · unfold turn at h
        split at h
        · cases h
          rfl
        · split at h <;> cases h
          rfl

/-- Tokens that are not taken in are taken in up to a tag that is refused, by induction on the
tokens. -/
theorem exists_refused {ts : List Token} {b : Builder} {e : ParseError}
    (h : ts.foldlM step b = .error e) :
    ∃ before t after c, ts = before ++ .tag t e.position :: after ∧ b.Reads before c ∧
      c.step (.tag t e.position) = .error e := by
  induction ts generalizing b with
  | nil => cases h
  | cons u rest ih =>
    rw [List.foldlM_cons] at h
    cases hstep : b.step u with
    | error e' =>
      rw [hstep] at h
      cases h
      obtain ⟨t, rfl⟩ := exists_tag_of_step_error hstep
      exact ⟨[], t, rest, b, rfl, rfl, hstep⟩
    | ok b' =>
      rw [hstep] at h
      obtain ⟨before, t, after, c, rfl, hbefore, ht⟩ := ih h
      exact ⟨u :: before, t, after, c, rfl, .cons hstep hbefore, ht⟩

/-- Behind what can be taken in, a tag is refused if and only if nothing helps any more. -/
theorem step_error_iff {ts : List Token} {b : Builder} (hb : Builder.empty.Reads ts b)
    (u : Token) : (∃ e, b.step u = .error e) ↔ ¬Viable (ts ++ [u]) := by
  rw [viable_iff]
  constructor
  · rintro ⟨e, he⟩ ⟨c, hc⟩
    unfold Reads at hb hc
    rw [List.foldlM_append, hb] at hc
    change b.step u >>= _ = _ at hc
    rw [he] at hc
    cases hc
  · intro h
    cases hstep : b.step u with
    | error e => exact ⟨e, rfl⟩
    | ok c => exact absurd ⟨c, hb.append (.one hstep)⟩ h

end Builder

/-! ## The construct that is left open -/

/-- From the beginning of a block of the construct on, what is unfinished is taken in and leaves
the construct open, by induction on its blocks. -/
theorem Unfinished.reads {t : Tag} {inside : List Token} (h : Unfinished t inside) (o : Opening)
    (ho : t.opens?.map Opening.stage = some o.stage) (l : Level) (outer : List Level) :
    ∃ o' current, Builder.Reads ⟨{ l with opening := o } :: outer, []⟩ inside
      ⟨{ l with opening := o' } :: outer, current⟩ := by
  have hbody {body : List Token} (hb : WellNested body) (o : Opening) :
      ∃ block, Builder.Reads ⟨{ l with opening := o } :: outer, []⟩ body
        ⟨{ l with opening := o } :: outer, block⟩ := by
    obtain ⟨block, hblock, htokens⟩ := wellNested_iff.1 hb
    exact ⟨_, Builder.readsAsBlock_tokens block hblock body htokens _⟩
  induction h generalizing o with
  | body _ hb => exact ⟨o, hbody hb o⟩
  | elif c d p hb _ ih =>
    obtain ⟨block, hblock⟩ := hbody hb o
    cases o with
    | branch done c' =>
      obtain ⟨o', current, hothers⟩ := ih (.branch (done ++ [(c', block.reverse)]) d) rfl
      exact ⟨o', current, hblock.append (.cons rfl hothers)⟩
    | _ => cases ho
  | otherwise c p hb hother =>
    obtain ⟨block, hblock⟩ := hbody hb o
    cases o <;> cases ho
    obtain ⟨current, hcurrent⟩ := hbody hother _
    exact ⟨_, current, hblock.append (.cons rfl hcurrent)⟩
  | loopOrElse ref items p hb hother =>
    obtain ⟨block, hblock⟩ := hbody hb o
    cases o <;> cases ho
    obtain ⟨current, hcurrent⟩ := hbody hother _
    exact ⟨_, current, hblock.append (.cons rfl hcurrent)⟩

/-- An unfinished construct behind viable tokens is an error at its opening tag. -/
theorem Unfinished.ofTokens_error {before inside : List Token} {t : Tag} (p : Position)
    (h : Unfinished t inside) (hbefore : Viable before) :
    ∃ fault, Block.ofTokens (before ++ .tag t p :: inside) = .error ⟨p, fault⟩ := by
  obtain ⟨b, hb⟩ := viable_iff.1 hbefore
  obtain ⟨o, ho⟩ : ∃ o, t.opens? = some o := by
    cases h with
    | body ho => exact ⟨_, ho⟩
    | elif | otherwise | loopOrElse => exact ⟨_, rfl⟩
  obtain ⟨o', current, hinside⟩ := h.reads o (by rw [ho]; rfl) ⟨o, p, b.current⟩ b.levels
  have hread := hb.append (.cons (Builder.step_opens ho p b) hinside)
  exact ⟨_, Builder.ofTokens_of_reads hread⟩

/-- The branches of a choice that goes on with the given tokens, by induction on the branches. -/
theorem exists_unfinished_of_branches {tail : List Token}
    (htail : ∀ c body, WellNested body → Unfinished (.if c) (body ++ tail)) (begins : Expr → Tag)
    {branches : List (Expr × Block)} (hne : branches ≠ []) (hread : BranchesAsRead branches)
    {ts : List Token} (hts : ts.map Token.forget = branchTokens begins branches) :
    ∃ c q inside, ts = .tag (begins c) q :: inside ∧ Unfinished (.if c) (inside ++ tail) := by
  induction branches generalizing begins ts with
  | nil => exact absurd rfl hne
  | cons x rest ih =>
    obtain ⟨c, body⟩ := x
    unfold BranchesAsRead at hread
    simp only [branchTokens, List.cons_append] at hts
    obtain ⟨q, us, rfl, hus⟩ := Token.map_forget_eq_tag_cons hts
    obtain ⟨inner, others, rfl, hinner, hothers⟩ := List.map_eq_append_iff.1 hus
    have hbody := nestsWell_block body hread.1 inner hinner
    refine ⟨c, q, inner ++ others, rfl, ?_⟩
    rw [List.append_assoc]
    by_cases hrest : rest = []
    · subst hrest
      rw [List.map_eq_nil_iff.1 hothers]
      exact htail c inner hbody
    · obtain ⟨d, p, inside, rfl, hinside⟩ := ih .elif hrest hread.2 hothers
      exact .elif c d p hbody hinside

/-- What has been read of an open construct begins with its opening tag and is unfinished. -/
theorem Opening.exists_unfinished {o : Opening} {p : Position} {body : Block} (ho : o.AsRead)
    (hbody : BlockAsRead body) {ts : List Token}
    (hts : ts.map Token.forget = o.tokens p ++ blockTokens body) :
    ∃ t q inside, ts = .tag t q :: inside ∧ Unfinished t inside := by
  cases o with
  | branch done c =>
    have htokens : ts.map Token.forget = branchTokens .if (done ++ [(c, body)]) := by
      simpa [Opening.tokens, branchTokens_append, branchTokens, blockTokens] using hts
    have hbranches : BranchesAsRead (done ++ [(c, body)]) :=
      branchesAsRead_append.2 ⟨ho, hbody, trivial⟩
    have htail (c : Expr) (body : List Token) (hb : WellNested body) :
        Unfinished (.if c) (body ++ []) := by
      rw [List.append_nil]
      exact .body rfl hb
    obtain ⟨d, q, inside, rfl, hinside⟩ :=
      exists_unfinished_of_branches htail .if (by simp) hbranches htokens
    rw [List.append_nil] at hinside
    exact ⟨_, q, inside, rfl, hinside⟩
  | otherwise branches =>
    simp only [Opening.tokens, List.append_assoc, List.cons_append, List.nil_append] at hts
    obtain ⟨first, last, rfl, hfirst, hlast⟩ := List.map_eq_append_iff.1 hts
    obtain ⟨q, other, rfl, hother⟩ := Token.map_forget_eq_tag_cons hlast
    have hwell := nestsWell_block body hbody other hother
    obtain ⟨d, q', inside, rfl, hinside⟩ := exists_unfinished_of_branches
      (fun c _ hb => .otherwise c q hb hwell) .if ho.1 ho.2 hfirst
    exact ⟨_, q', _, rfl, hinside⟩
  | eachOtherwise ref items first =>
    simp only [Opening.tokens, List.append_assoc, List.cons_append, List.nil_append] at hts
    obtain ⟨q, us, rfl, hus⟩ := Token.map_forget_eq_tag_cons hts
    obtain ⟨inner, last, rfl, hinner, hlast⟩ := List.map_eq_append_iff.1 hus
    obtain ⟨q', other, rfl, hother⟩ := Token.map_forget_eq_tag_cons hlast
    exact ⟨_, q, _, rfl, .loopOrElse ref items q' (nestsWell_block first ho inner hinner)
      (nestsWell_block body hbody other hother)⟩
  | each | «while» | function | capture =>
    obtain ⟨q, inside, rfl, hinside⟩ := Token.map_forget_eq_tag_cons hts
    exact ⟨_, q, inside, rfl, .body rfl (nestsWell_block body hbody inside hinside)⟩

/-- Tokens that leave a construct open end with the innermost of these unfinished. -/
theorem Builder.Reads.exists_unfinished {ts : List Token} {b : Builder}
    (h : Builder.empty.Reads ts b) {l : Level} {outer : List Level} (hl : b.levels = l :: outer) :
    ∃ before t q inside, ts = before ++ .tag t q :: inside ∧ Viable before ∧
      Unfinished t inside := by
  obtain ⟨htokens, hread⟩ := Builder.tokens_foldlM (b := .empty) ⟨trivial, nofun⟩ h
  have hopening : l.opening.AsRead := (hread.levels l (by simp [hl])).1
  simp only [Builder.tokens, hl, levelTokens, Builder.empty, blockTokens, List.reverse_nil,
    List.append_nil, List.nil_append, List.append_assoc] at htokens
  rw [← List.append_assoc] at htokens
  obtain ⟨before, rest, rfl, -, hrest⟩ := List.map_eq_append_iff.1 htokens.symm
  obtain ⟨t, q, inside, rfl, hinside⟩ :=
    Opening.exists_unfinished hopening (blockAsRead_reverse.2 hread.current) hrest
  exact ⟨before, t, q, inside, rfl, (viable_iff.2 ⟨b, h⟩).of_append, hinside⟩

/-! ## Causes -/

/-- Tokens are rejected at a position in just two cases. The first tag stands there behind which no
continuation is well nested. Or every tag still has such a continuation, and there stands the
opening tag of the innermost construct that is still open, behind which there are only blocks and
dividers of that construct. -/
theorem ofTokens_blames_the_cause (ts : List Token) (p : Position) :
    (∃ fault, Block.ofTokens ts = .error ⟨p, fault⟩) ↔
      (∃ before t after, ts = before ++ .tag t p :: after ∧
        Viable before ∧ ¬Viable (before ++ [.tag t p])) ∨
      (Viable ts ∧ ∃ before t inside, ts = before ++ .tag t p :: inside ∧
        Viable before ∧ Unfinished t inside) := by
  constructor
  · rintro ⟨fault, h⟩
    cases hfold : ts.foldlM Builder.step .empty with
    | error e =>
      have he : e = ⟨p, fault⟩ := by
        unfold Block.ofTokens at h
        rw [hfold] at h
        cases h
        rfl
      subst he
      obtain ⟨before, t, after, c, rfl, hbefore, hstep⟩ := Builder.exists_refused hfold
      exact .inl ⟨before, t, after, rfl, viable_iff.2 ⟨c, hbefore⟩,
        (Builder.step_error_iff hbefore _).1 ⟨_, hstep⟩⟩
    | ok b =>
      have hread : Builder.empty.Reads ts b := hfold
      cases hlevels : b.levels with
      | nil =>
        rw [Builder.ofTokens_of_reads hread] at h
        simp [Builder.finish, hlevels] at h
      | cons l outer =>
        obtain ⟨before, t, q, inside, rfl, hbefore, hinside⟩ := hread.exists_unfinished hlevels
        -- there is one error only, so the construct is the one that it blames
        obtain ⟨fault', h'⟩ := hinside.ofTokens_error q hbefore
        obtain rfl : p = q := by
          rw [h'] at h
          cases h
          rfl
        exact .inr ⟨viable_iff.2 ⟨b, hread⟩, before, t, inside, rfl, hbefore, hinside⟩
  · rintro (⟨before, t, after, rfl, hbefore, hviable⟩ | ⟨-, before, t, inside, rfl, hbefore, h⟩)
    · obtain ⟨b, hb⟩ := viable_iff.1 hbefore
      obtain ⟨e, he⟩ := (Builder.step_error_iff hb _).2 hviable
      obtain ⟨t', ht'⟩ := Builder.exists_tag_of_step_error he
      obtain rfl : p = e.position := by
        cases ht'
        rfl
      refine ⟨e.fault, ?_⟩
      unfold Block.ofTokens
      rw [List.foldlM_append, hb]
      change ((b.step _ >>= _) >>= _) = _
      rw [he]
      rfl
    · exact h.ofTokens_error p hbefore

/-- A choice that is not closed is an error at its first tag, also behind other branches. -/
example (c d : Expr) : Block.ofTokens [.tag (.if c) ⟨1, 1⟩, .tag (.elif d) ⟨2, 1⟩, .text "x"] =
    .error ⟨⟨1, 1⟩, .unclosedTag "if" "endif"⟩ := rfl

end TemplateEngine
