import TemplateEngine.Source.Nesting

/-!
# Blocks written as tags

A block is flattened by writing each construct as its opening tag, its body, its dividers and its
closing tag (`blockTokens`). Statements keep the places of some tags only, so a flattened block is
compared with tokens that have forgotten the other places (`Token.forget`). While tags are read,
what has been read is what the open constructs flatten to: every step adds its token and nothing
else (`Builder.tokens_step`). So a block that is read flattens to the tokens that it was read from
(`forget_of_ofTokens`).
-/

namespace TemplateEngine

/-! ## Flattening -/

/-- A statement keeps the place of the tag. -/
def Tag.IsPlaced : Tag → Bool
  | .for .. | .while .. | .function .. | .break | .continue | .return .. | .include .. => true
  | _ => false

/-- The token without the place of a tag, if no statement keeps that. -/
def Token.forget : Token → Token
  | .tag t p => .tag t (if t.IsPlaced then p else .unknown)
  | t => t

mutual

/-- The tokens that a statement is written with. -/
def Stmt.tokens : Stmt → List Token
  | .text content => [.text content]
  | .output value => [.output value]
  | .assign target value => [.tag (.set target value) .unknown]
  | .assignGlobal ref value => [.tag (.setGlobal ref value) .unknown]
  | .choose branches otherwise =>
    branchTokens .if branches ++
      (match otherwise with
        | none => []
        | some block => .tag .else .unknown :: blockTokens block) ++ [.tag .endif .unknown]
  | .each ref items body otherwise p =>
    .tag (.for ref items) p :: blockTokens body ++
      (match otherwise with
        | none => []
        | some block => .tag .else .unknown :: blockTokens block) ++ [.tag .endfor .unknown]
  | .repeatWhile c body p => .tag (.while c) p :: blockTokens body ++ [.tag .endwhile .unknown]
  | .define _ name params body p =>
    .tag (.function name params) p :: blockTokens body ++ [.tag .endfunction .unknown]
  | .leave value p => [.tag (.return value) p]
  | .stop p => [.tag .break p]
  | .next p => [.tag .continue p]
  | .capture target body =>
    .tag (.capture target) .unknown :: blockTokens body ++ [.tag .endcapture .unknown]
  | .include path model p => [.tag (.include path model) p]

/-- The tokens that a block is written with. -/
def blockTokens : List Stmt → List Token
  | [] => []
  | s :: rest => s.tokens ++ blockTokens rest

/-- The tokens that branches are written with, the first of them with its own keyword. -/
def branchTokens (begins : Expr → Tag) : List (Expr × List Stmt) → List Token
  | [] => []
  | (c, body) :: rest => .tag (begins c) .unknown :: blockTokens body ++ branchTokens .elif rest

end

theorem blockTokens_append (b c : Block) :
    blockTokens (b ++ c) = blockTokens b ++ blockTokens c := by
  induction b with
  | nil => rfl
  | cons s rest ih => simp only [List.cons_append, blockTokens, ih, List.append_assoc]

/-- The keyword of a branch that others stand before. -/
def nextBranch (begins : Expr → Tag) (before : List (Expr × Block)) : Expr → Tag :=
  if before.isEmpty then begins else .elif

theorem branchTokens_append (begins : Expr → Tag) (bs cs : List (Expr × Block)) :
    branchTokens begins (bs ++ cs) =
      branchTokens begins bs ++ branchTokens (nextBranch begins bs) cs := by
  induction bs generalizing begins with
  | nil => rfl
  | cons b rest ih =>
    have hnext : nextBranch .elif rest = .elif := by simp [nextBranch]
    simp only [List.cons_append, branchTokens, ih, hnext, List.append_assoc]
    rfl

/-! ## Blocks as they are read -/

mutual

/-- A statement that tags can be read as: every choice has a branch, and no definition has been
numbered. -/
def Stmt.AsRead : Stmt → Prop
  | .choose branches otherwise =>
    branches ≠ [] ∧ BranchesAsRead branches ∧
      match otherwise with
      | none => True
      | some block => BlockAsRead block
  | .each _ _ body otherwise _ =>
    BlockAsRead body ∧
      match otherwise with
      | none => True
      | some block => BlockAsRead block
  | .repeatWhile _ body _ => BlockAsRead body
  | .define identity _ _ body _ => identity = 0 ∧ BlockAsRead body
  | .capture _ body => BlockAsRead body
  | _ => True

/-- A block that tags can be read as. -/
def BlockAsRead : List Stmt → Prop
  | [] => True
  | s :: rest => s.AsRead ∧ BlockAsRead rest

/-- Branches that tags can be read as. -/
def BranchesAsRead : List (Expr × List Stmt) → Prop
  | [] => True
  | (_, body) :: rest => BlockAsRead body ∧ BranchesAsRead rest

end

theorem blockAsRead_append {b c : Block} :
    BlockAsRead (b ++ c) ↔ BlockAsRead b ∧ BlockAsRead c := by
  induction b with
  | nil => simp [BlockAsRead]
  | cons s rest ih => simp only [List.cons_append, BlockAsRead, ih, and_assoc]

theorem branchesAsRead_append {bs cs : List (Expr × Block)} :
    BranchesAsRead (bs ++ cs) ↔ BranchesAsRead bs ∧ BranchesAsRead cs := by
  induction bs with
  | nil => simp [BranchesAsRead]
  | cons b rest ih => simp only [List.cons_append, BranchesAsRead, ih, and_assoc]

theorem blockAsRead_reverse {b : Block} : BlockAsRead b.reverse ↔ BlockAsRead b := by
  induction b with
  | nil => rfl
  | cons s rest ih =>
    simp only [List.reverse_cons, blockAsRead_append, BlockAsRead, and_true]
    rw [ih, and_comm]

/-! ## What has been read -/

/-- The tokens of what has been read of an open construct before the block at hand. -/
def Opening.tokens (position : Position) : Opening → List Token
  | .branch done condition => branchTokens .if (done ++ [(condition, [])])
  | .otherwise branches => branchTokens .if branches ++ [.tag .else .unknown]
  | .each ref items => [.tag (.for ref items) position]
  | .eachOtherwise ref items body =>
    .tag (.for ref items) position :: blockTokens body ++ [.tag .else .unknown]
  | .while condition => [.tag (.while condition) position]
  | .function name params => [.tag (.function name params) position]
  | .capture target => [.tag (.capture target) .unknown]

/-- The tokens of open constructs and of what stands before them. -/
def levelTokens : List Level → List Token
  | [] => []
  | l :: outer => levelTokens outer ++ blockTokens l.before.reverse ++ l.opening.tokens l.position

/-- The tokens of all that has been read. -/
def Builder.tokens (b : Builder) : List Token :=
  levelTokens b.levels ++ blockTokens b.current.reverse

/-- What has been read of an open construct can go on to a statement as it is read. -/
def Opening.AsRead : Opening → Prop
  | .branch done _ => BranchesAsRead done
  | .otherwise branches => branches ≠ [] ∧ BranchesAsRead branches
  | .eachOtherwise _ _ body => BlockAsRead body
  | .each .. | .while _ | .function .. | .capture _ => True

/-- All that has been read is as it is read. -/
structure Builder.AsRead (b : Builder) : Prop where
  current : BlockAsRead b.current
  levels : ∀ l ∈ b.levels, l.opening.AsRead ∧ BlockAsRead l.before

/-! ### Single tags -/

theorem Tag.tokens_statement {t : Tag} {p : Position} {s : Stmt} (h : t.statement? p = some s) :
    s.tokens = [(Token.tag t p).forget] ∧ s.AsRead := by
  cases t with
  | set | setGlobal | «break» | «continue» | «return» | «include» =>
    cases h
    exact ⟨rfl, trivial⟩
  | _ => cases h

theorem Tag.tokens_opens {t : Tag} {o : Opening} (h : t.opens? = some o) (p : Position) :
    o.tokens p = [(Token.tag t p).forget] ∧ o.AsRead := by
  cases t with
  | «if» | «for» | «while» | function | capture =>
    cases h
    exact ⟨rfl, trivial⟩
  | _ => cases h

/-- What a tag makes of an open construct has the tokens of the construct, of its block and of the
tag. -/
theorem Opening.tokens_turn {o : Opening} {body : Block} {p q : Position} {t : Tag} {r : Turn}
    (h : o.turn? body p t = some r) :
    match r with
    | .divides o' => o'.tokens p = o.tokens p ++ blockTokens body ++ [(Token.tag t q).forget]
    | .closes s => s.tokens = o.tokens p ++ blockTokens body ++ [(Token.tag t q).forget] := by
  unfold Opening.turn? at h
  split at h <;> cases h <;>
    simp [Opening.tokens, Stmt.tokens, blockTokens, branchTokens, branchTokens_append,
      Token.forget, Tag.IsPlaced, nextBranch]

theorem Opening.AsRead.turn {o : Opening} {body : Block} {p : Position} {t : Tag} {r : Turn}
    (ho : o.AsRead) (hb : BlockAsRead body) (h : o.turn? body p t = some r) :
    match r with
    | .divides o' => o'.AsRead
    | .closes s => s.AsRead := by
  unfold Opening.turn? at h
  split at h <;> cases h <;>
    simp_all [Opening.AsRead, Stmt.AsRead, BranchesAsRead, branchesAsRead_append]

/-! ### Steps -/

namespace Builder

variable {b c : Builder}

theorem tokens_add (b : Builder) (s : Stmt) : (b.add s).tokens = b.tokens ++ s.tokens := by
  simp [tokens, add, blockTokens_append, blockTokens]

theorem AsRead.add (h : b.AsRead) {s : Stmt} (hs : s.AsRead) : (b.add s).AsRead :=
  ⟨⟨hs, h.current⟩, h.levels⟩

theorem tokens_turn {t : Tag} {p : Position} (h : b.turn t p = .ok c) :
    c.tokens = b.tokens ++ [(Token.tag t p).forget] := by
  obtain ⟨levels, current⟩ := b
  unfold turn at h
  rcases levels with _ | ⟨level, outer⟩
  · cases h
  · dsimp only at h
    split at h
    · cases h
    · next hturn =>
      cases h
      have htokens := Opening.tokens_turn (q := p) hturn
      dsimp only at htokens
      simp [tokens, levelTokens, htokens, blockTokens]
    · next hturn =>
      cases h
      have htokens := Opening.tokens_turn (q := p) hturn
      dsimp only at htokens
      simp [tokens, levelTokens, htokens, blockTokens_append, blockTokens]

theorem AsRead.turn (hb : b.AsRead) {t : Tag} {p : Position} (h : b.turn t p = .ok c) :
    c.AsRead := by
  obtain ⟨levels, current⟩ := b
  unfold Builder.turn at h
  rcases levels with _ | ⟨level, outer⟩
  · cases h
  · obtain ⟨⟨hopening, hbefore⟩, houter⟩ := List.forall_mem_cons.1 hb.levels
    have hcurrent := blockAsRead_reverse.2 hb.current
    dsimp only at h
    split at h
    · cases h
    · next hturn =>
      cases h
      exact ⟨trivial, List.forall_mem_cons.2 ⟨⟨hopening.turn hcurrent hturn, hbefore⟩, houter⟩⟩
    · next hturn =>
      cases h
      exact ⟨⟨hopening.turn hcurrent hturn, hbefore⟩, houter⟩

/-- A token that is taken in is added to what has been read. -/
theorem tokens_step {t : Token} (h : b.step t = .ok c) : c.tokens = b.tokens ++ [t.forget] := by
  unfold step at h
  split at h
  · cases h
    exact b.tokens_add _
  · cases h
    exact b.tokens_add _
  · next t p =>
    split at h
    · next s hs =>
      cases h
      rw [b.tokens_add, (Tag.tokens_statement hs).1]
    · split at h
      · next o ho =>
        cases h
        simp [tokens, levelTokens, (Tag.tokens_opens ho p).1, blockTokens]
      · exact tokens_turn h

theorem AsRead.step (hb : b.AsRead) {t : Token} (h : b.step t = .ok c) : c.AsRead := by
  unfold Builder.step at h
  split at h
  · cases h
    exact hb.add trivial
  · cases h
    exact hb.add trivial
  · next t p =>
    split at h
    · next s hs =>
      cases h
      exact hb.add (Tag.tokens_statement hs).2
    · split at h
      · next o ho =>
        cases h
        exact ⟨trivial, List.forall_mem_cons.2 ⟨⟨(Tag.tokens_opens ho p).2, hb.current⟩, hb.levels⟩⟩
      · exact hb.turn h

/-- All that has been read after some tokens, by induction on the tokens. -/
theorem tokens_foldlM {ts : List Token} (hb : b.AsRead) (h : ts.foldlM step b = .ok c) :
    c.tokens = b.tokens ++ ts.map Token.forget ∧ c.AsRead := by
  induction ts generalizing b with
  | nil =>
    cases h
    exact ⟨(List.append_nil _).symm, hb⟩
  | cons t rest ih =>
    rw [List.foldlM_cons] at h
    cases hstep : b.step t with
    | error e =>
      rw [hstep] at h
      cases h
    | ok b' =>
      rw [hstep] at h
      obtain ⟨htokens, hc⟩ := ih (hb.step hstep) h
      rw [htokens, tokens_step hstep, List.append_assoc]
      exact ⟨rfl, hc⟩

end Builder

/-- A block that is read flattens to the tokens that it was read from. -/
theorem forget_of_ofTokens {ts : List Token} {b : Block} (h : Block.ofTokens ts = .ok b) :
    BlockAsRead b ∧ ts.map Token.forget = blockTokens b := by
  unfold Block.ofTokens at h
  cases hfold : ts.foldlM Builder.step .empty with
  | error e =>
    rw [hfold] at h
    cases h
  | ok builder =>
    rw [hfold] at h
    obtain ⟨htokens, hread⟩ := Builder.tokens_foldlM (b := .empty) ⟨trivial, nofun⟩ hfold
    change builder.finish = .ok b at h
    unfold Builder.finish at h
    split at h
    · next hlevels =>
      cases h
      refine ⟨blockAsRead_reverse.2 hread.current, ?_⟩
      simpa [Builder.tokens, hlevels, levelTokens, Builder.empty, blockTokens] using htokens.symm
    · cases h

end TemplateEngine
