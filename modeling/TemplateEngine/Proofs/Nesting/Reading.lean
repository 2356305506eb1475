import TemplateEngine.Proofs.Nesting.Flattening

/-!
# Reading flattened blocks

Tokens are read as a statement if they add it to the block at hand, whatever stands before it
(`Builder.ReadsAs`). From an opening tag on a construct is completed block by block
(`Builder.Completes`): a block is read, and the tag behind it divides the construct or closes it. So
a block that is flattened is read as that very block (`ofTokens_of_forget`), whatever places its
tags stand at that no statement keeps.
-/

namespace TemplateEngine

/-! ## Reading what was flattened -/

/-- A token that forgets its way to a tag is that tag. -/
theorem Token.forget_eq_tag {t : Token} {tag : Tag} {p : Position}
    (h : t.forget = .tag tag p) : ∃ q, t = .tag tag q ∧ (tag.IsPlaced = true → q = p) := by
  cases t with
  | text content => cases h
  | output value => cases h
  | tag tag' q =>
    cases h
    exact ⟨q, rfl, fun hplaced => (if_pos hplaced).symm⟩

theorem Token.forget_eq_text {t : Token} {content : String} (h : t.forget = .text content) :
    t = .text content := by
  cases t with
  | text _ => exact h
  | output _ => cases h
  | tag _ _ => cases h

theorem Token.forget_eq_output {t : Token} {value : Expr} (h : t.forget = .output value) :
    t = .output value := by
  cases t with
  | text _ => cases h
  | output _ => exact h
  | tag _ _ => cases h

namespace Builder

/-- Taking in the tokens leads from one state to the other. -/
def Reads (b : Builder) (ts : List Token) (c : Builder) : Prop := ts.foldlM step b = .ok c

variable {a b c d : Builder} {ts us : List Token}

theorem Reads.append (h : b.Reads ts c) (k : c.Reads us d) : b.Reads (ts ++ us) d := by
  unfold Reads at *
  rw [List.foldlM_append, h]
  exact k

theorem Reads.cons {t : Token} (h : b.step t = .ok c) (k : c.Reads ts d) :
    b.Reads (t :: ts) d := by
  unfold Reads at *
  rw [List.foldlM_cons, h]
  exact k

theorem Reads.one {t : Token} (h : b.step t = .ok c) : b.Reads [t] c := .cons h rfl

/-- The tokens are read as one more statement, whatever they are read after. -/
def ReadsAs (us : List Token) (s : Stmt) : Prop :=
  ∀ ts, ts.map Token.forget = us → ∀ b : Builder, b.Reads ts (b.add s)

/-- The tokens are read as more statements. -/
def ReadsAsBlock (us : List Token) (block : Block) : Prop :=
  ∀ ts, ts.map Token.forget = us →
    ∀ b : Builder, b.Reads ts ⟨b.levels, block.reverse ++ b.current⟩

/-- From the beginning of a block in an open construct on, the tokens are read as the rest of a
statement. -/
def Completes (o : Opening) (p : Position) (us : List Token) (s : Stmt) : Prop :=
  ∀ ts, ts.map Token.forget = us → ∀ (before : List Stmt) (outer : List Level),
    Reads ⟨⟨o, p, before⟩ :: outer, []⟩ ts ⟨outer, s :: before⟩

/-- A tag that is a statement by itself. -/
theorem readsAs_tag {t : Tag} {p : Position} {s : Stmt}
    (h : ∀ q, (t.IsPlaced = true → q = p) → t.statement? q = some s) : ReadsAs [.tag t p] s := by
  intro ts hts b
  obtain ⟨u, rfl, hu⟩ := List.map_eq_singleton_iff.1 hts
  obtain ⟨q, rfl, hq⟩ := Token.forget_eq_tag hu
  exact .one (by simp only [step, h q hq])

/-- A tag that opens a construct is no statement by itself. -/
theorem step_opens {t : Tag} {o : Opening} (h : t.opens? = some o) (p : Position) (b : Builder) :
    b.step (.tag t p) = .ok ⟨⟨o, p, b.current⟩ :: b.levels, []⟩ := by
  cases t <;> cases h <;> rfl

/-- A tag that ends a block of a construct neither is a statement by itself nor opens one. -/
theorem step_turn {o : Opening} {body : Block} {p : Position} {t : Tag} {r : Turn}
    (h : o.turn? body p t = some r) (q : Position) (b : Builder) :
    b.step (.tag t q) = b.turn t q := by
  unfold Opening.turn? at h
  split at h <;> first | rfl | cases h

/-- A tag that opens a construct, and what completes it. -/
theorem readsAs_opens {t : Tag} {p : Position} {o : Opening} {us : List Token} {s : Stmt}
    (ho : t.opens? = some o) (h : ∀ q, (t.IsPlaced = true → q = p) → Completes o q us s) :
    ReadsAs (.tag t p :: us) s := by
  intro _ hread b
  obtain ⟨u, ts, rfl, hu, hts⟩ := List.map_eq_cons_iff.1 hread
  obtain ⟨q, rfl, hq⟩ := Token.forget_eq_tag hu
  exact .cons (step_opens ho q b) (h q hq ts hts b.current b.levels)

/-- A block and the tag that closes its construct. -/
theorem completes_closes {o : Opening} {body : Block} {p : Position} {t : Tag} {s : Stmt}
    {us : List Token} (hb : ReadsAsBlock us body) (h : o.turn? body p t = some (.closes s))
    (q : Position) : Completes o p (us ++ [.tag t q]) s := by
  intro _ hread before outer
  obtain ⟨ts, rs, rfl, hts, hrs⟩ := List.map_eq_append_iff.1 hread
  obtain ⟨u, rfl, hu⟩ := List.map_eq_singleton_iff.1 hrs
  obtain ⟨q', rfl, -⟩ := Token.forget_eq_tag hu
  refine (hb ts hts _).append (.one ?_)
  rw [step_turn h]
  simp [turn, h]

/-- A block, the tag that divides its construct, and what completes the construct then. -/
theorem completes_divides {o o' : Opening} {body : Block} {p : Position} {t : Tag} {s : Stmt}
    {us vs : List Token} (hb : ReadsAsBlock us body) (h : o.turn? body p t = some (.divides o'))
    (q : Position) (ho : Completes o' p vs s) : Completes o p (us ++ .tag t q :: vs) s := by
  intro _ hread before outer
  obtain ⟨ts, _, rfl, hts, hread⟩ := List.map_eq_append_iff.1 hread
  obtain ⟨u, rs, rfl, hu, hrs⟩ := List.map_eq_cons_iff.1 hread
  obtain ⟨q', rfl, -⟩ := Token.forget_eq_tag hu
  refine (hb ts hts _).append (.cons ?_ (ho rs hrs before outer))
  rw [step_turn h]
  simp [turn, h]

theorem ReadsAsBlock.nil : ReadsAsBlock [] [] := by
  intro ts hts b
  rw [List.map_eq_nil_iff.1 hts]
  rfl

theorem ReadsAsBlock.cons {us vs : List Token} {s : Stmt} {block : Block} (hs : ReadsAs us s)
    (hb : ReadsAsBlock vs block) : ReadsAsBlock (us ++ vs) (s :: block) := by
  intro _ hread b
  obtain ⟨ts, rs, rfl, hts, hrs⟩ := List.map_eq_append_iff.1 hread
  refine (hs ts hts b).append ?_
  simpa [add] using hb rs hrs (b.add s)

/-- The branches of a choice from some branch on and the block behind them, by induction on the
branches. -/
theorem completes_branches {otherwise : Option Block}
    (ho : ∀ block ∈ otherwise, ReadsAsBlock (blockTokens block) block) {q : Position}
    {rest : List (Expr × Block)} (hrest : ∀ x ∈ rest, ReadsAsBlock (blockTokens x.2) x.2)
    (done : List (Expr × Block)) (c : Expr) {body : Block}
    (hbody : ReadsAsBlock (blockTokens body) body) :
    Completes (.branch done c) q
      (blockTokens body ++ (branchTokens .elif rest ++
        ((match otherwise with
          | none => []
          | some block => .tag .else .unknown :: blockTokens block) ++ [.tag .endif .unknown])))
      (.choose (done ++ (c, body) :: rest) otherwise) := by
  induction rest generalizing done c body with
  | nil =>
    cases otherwise with
    | none => exact completes_closes hbody rfl _
    | some block => exact completes_divides hbody rfl _ (completes_closes (ho block rfl) rfl _)
  | cons x rest ih =>
    obtain ⟨c', body'⟩ := x
    rw [List.forall_mem_cons] at hrest
    have h := ih hrest.2 (done ++ [(c, body)]) c' hrest.1
    rw [List.append_assoc] at h
    simp only [branchTokens, List.append_assoc, List.cons_append]
    exact completes_divides hbody rfl _ h

mutual

/-- The tokens of a statement are read as it. -/
theorem readsAs_tokens : ∀ s : Stmt, s.AsRead → ReadsAs s.tokens s
  | .text content, _ => by
    intro ts hts b
    obtain ⟨u, rfl, hu⟩ := List.map_eq_singleton_iff.1 hts
    rw [Token.forget_eq_text hu]
    exact .one rfl
  | .output value, _ => by
    intro ts hts b
    obtain ⟨u, rfl, hu⟩ := List.map_eq_singleton_iff.1 hts
    rw [Token.forget_eq_output hu]
    exact .one rfl
  | .assign _ _, _ => readsAs_tag fun _ _ => rfl
  | .assignGlobal _ _, _ => readsAs_tag fun _ _ => rfl
  | .choose [] _, h => by
    unfold Stmt.AsRead at h
    exact absurd rfl h.1
  | .choose ((c, body) :: rest) otherwise, h => by
    unfold Stmt.AsRead BranchesAsRead at h
    obtain ⟨-, ⟨hbody, hrest⟩, ho⟩ := h
    have hotherwise : ∀ block ∈ otherwise, ReadsAsBlock (blockTokens block) block := by
      cases otherwise with
      | none => nofun
      | some block =>
        rintro _ ⟨⟩
        exact readsAsBlock_tokens block ho
    unfold Stmt.tokens branchTokens
    simp only [List.append_assoc, List.cons_append]
    exact readsAs_opens rfl fun q _ => completes_branches hotherwise
      (readsAsBlock_branches rest hrest) [] c (readsAsBlock_tokens body hbody)
  | .each _ _ body none _, h => by
    rw [Stmt.AsRead] at h
    have hbody := readsAsBlock_tokens body h.1
    simp only [Stmt.tokens, List.cons_append, List.append_nil]
    exact readsAs_opens rfl fun q hq => hq rfl ▸ completes_closes hbody rfl _
  | .each _ _ body (some block) _, h => by
    rw [Stmt.AsRead] at h
    have hbody := readsAsBlock_tokens body h.1
    have hblock := readsAsBlock_tokens block h.2
    simp only [Stmt.tokens, List.append_assoc, List.cons_append]
    exact readsAs_opens rfl fun q hq =>
      hq rfl ▸ completes_divides hbody rfl _ (completes_closes hblock rfl _)
  | .repeatWhile _ body _, h => by
    rw [Stmt.AsRead] at h
    have hbody := readsAsBlock_tokens body h
    exact readsAs_opens rfl fun q hq => hq rfl ▸ completes_closes hbody rfl _
  | .define _ _ _ body _, h => by
    rw [Stmt.AsRead] at h
    obtain ⟨rfl, h⟩ := h
    have hbody := readsAsBlock_tokens body h
    exact readsAs_opens rfl fun q hq => hq rfl ▸ completes_closes hbody rfl _
  | .leave _ _, _ => readsAs_tag fun _ hq => hq rfl ▸ rfl
  | .stop _, _ => readsAs_tag fun _ hq => hq rfl ▸ rfl
  | .next _, _ => readsAs_tag fun _ hq => hq rfl ▸ rfl
  | .capture _ body, h => by
    rw [Stmt.AsRead] at h
    have hbody := readsAsBlock_tokens body h
    exact readsAs_opens rfl fun q _ => completes_closes hbody rfl _
  | .include _ _ _, _ => readsAs_tag fun _ hq => hq rfl ▸ rfl

/-- The tokens of a block are read as it. -/
theorem readsAsBlock_tokens : ∀ b : List Stmt, BlockAsRead b → ReadsAsBlock (blockTokens b) b
  | [], _ => .nil
  | s :: rest, h => by
    rw [BlockAsRead] at h
    exact .cons (readsAs_tokens s h.1) (readsAsBlock_tokens rest h.2)

theorem readsAsBlock_branches : ∀ bs : List (Expr × List Stmt), BranchesAsRead bs →
    ∀ x ∈ bs, ReadsAsBlock (blockTokens x.2) x.2
  | [], _ => nofun
  | (_, body) :: rest, h => by
    rw [BranchesAsRead] at h
    exact List.forall_mem_cons.2 ⟨readsAsBlock_tokens body h.1, readsAsBlock_branches rest h.2⟩

end

end Builder

/-- A block that was flattened is read as that block, wherever its tags stand that no statement
keeps the place of. -/
theorem ofTokens_of_forget {ts : List Token} {b : Block} (hb : BlockAsRead b)
    (h : ts.map Token.forget = blockTokens b) : Block.ofTokens ts = .ok b := by
  have hread := Builder.readsAsBlock_tokens b hb ts h .empty
  unfold Block.ofTokens
  rw [hread]
  simp [Builder.finish, Builder.empty, bind, Except.bind]

end TemplateEngine
