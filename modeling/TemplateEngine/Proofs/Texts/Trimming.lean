import TemplateEngine.Proofs.Nesting.Flattening
import TemplateEngine.Proofs.Scoping.Rule
import TemplateEngine.Source.Parse

/-!
# Trimming the texts of a tree

A walk through a tree in the order of writing, with a flag for every text that says whether a
statement tag stands right before it. Flagged texts lose one line break at their front, and of those
that are empty then nothing is left (`trimBlock`). The walk does to the tree what trimming does to
the tokens that the tree is written with (`tokens_trimBlock`), and neither what names mean nor which
loop controls are astray depends on it (`trimBlock_resolve`, `strayControl?_trimBlock`).
-/

namespace TemplateEngine

/-! ## Texts -/

/-- The text without a line break at its front. -/
def withoutLineBreak (text : List Char) : List Char :=
  if "\r\n".toList <+: text then text.drop 2
  else if "\n".toList <+: text then text.drop 1
  else text

theorem dropLineBreak_eq (text : List Char) : dropLineBreak text = withoutLineBreak text := by
  unfold dropLineBreak withoutLineBreak
  split
  · simp
  · simp
  · next hcarriage hline =>
    have hcarriage : ¬ "\r\n".toList <+: text := fun ⟨rest, h⟩ => hcarriage rest h.symm
    have hline : ¬ "\n".toList <+: text := fun ⟨rest, h⟩ => hline rest h.symm
    rw [if_neg hcarriage, if_neg hline]

/-- What is left of a text: if it follows a statement tag it loses a line break, and an empty text
is dropped then. -/
def trimText (follows : Bool) (content : String) : List String :=
  if follows then [String.ofList (withoutLineBreak content.toList)].filter (· ≠ "") else [content]

/-! ## Trees -/

mutual

/-- The statement with its texts trimmed, and the flags of the texts behind it. -/
def Stmt.trim (flags : List Bool) : Stmt → List Stmt × List Bool
  | .text content => ((trimText (flags.headD false) content).map .text, flags.tail)
  | .choose branches none =>
    let done := trimBranches flags branches
    ([.choose done.1 none], done.2)
  | .choose branches (some block) =>
    let done := trimBranches flags branches
    let other := trimBlock done.2 block
    ([.choose done.1 (some other.1)], other.2)
  | .each ref items body none p =>
    let done := trimBlock flags body
    ([.each ref items done.1 none p], done.2)
  | .each ref items body (some block) p =>
    let done := trimBlock flags body
    let other := trimBlock done.2 block
    ([.each ref items done.1 (some other.1) p], other.2)
  | .repeatWhile c body p =>
    let done := trimBlock flags body
    ([.repeatWhile c done.1 p], done.2)
  | .define n name params body p =>
    let done := trimBlock flags body
    ([.define n name params done.1 p], done.2)
  | .capture target body =>
    let done := trimBlock flags body
    ([.capture target done.1], done.2)
  | s => ([s], flags)

/-- The block with its texts trimmed, and the flags of the texts behind it. -/
def trimBlock (flags : List Bool) : List Stmt → List Stmt × List Bool
  | [] => ([], flags)
  | s :: rest =>
    let done := s.trim flags
    let other := trimBlock done.2 rest
    (done.1 ++ other.1, other.2)

/-- The branches with the texts in their bodies trimmed, and the flags of the texts behind them. -/
def trimBranches (flags : List Bool) :
    List (Expr × List Stmt) → List (Expr × List Stmt) × List Bool
  | [] => ([], flags)
  | (c, body) :: rest =>
    let done := trimBlock flags body
    let other := trimBranches done.2 rest
    ((c, done.1) :: other.1, other.2)

end

/-! ## Tokens -/

/-- The tokens with their texts trimmed, and the flags of the texts behind them. -/
def trimTokens (flags : List Bool) : List Token → List Token × List Bool
  | [] => ([], flags)
  | .text content :: rest =>
    let other := trimTokens flags.tail rest
    ((trimText (flags.headD false) content).map .text ++ other.1, other.2)
  | t :: rest =>
    let other := trimTokens flags rest
    (t :: other.1, other.2)

@[simp] theorem trimTokens_nil (flags : List Bool) : trimTokens flags [] = ([], flags) := rfl

@[simp] theorem trimTokens_tag (flags : List Bool) (t : Tag) (p : Position) (ts : List Token) :
    trimTokens flags (.tag t p :: ts) =
      (.tag t p :: (trimTokens flags ts).1, (trimTokens flags ts).2) := rfl

theorem trimTokens_append (flags : List Bool) (ts us : List Token) :
    trimTokens flags (ts ++ us) =
      ((trimTokens flags ts).1 ++ (trimTokens (trimTokens flags ts).2 us).1,
        (trimTokens (trimTokens flags ts).2 us).2) := by
  induction ts generalizing flags with
  | nil => rfl
  | cons t rest ih => cases t <;> simp [trimTokens, ih]

theorem blockTokens_texts (contents : List String) :
    blockTokens (contents.map .text) = contents.map .text := by
  induction contents with
  | nil => rfl
  | cons x rest ih => simp only [List.map_cons, blockTokens, Stmt.tokens, ih, List.singleton_append]

mutual

theorem Stmt.tokens_trim (flags : List Bool) : ∀ s : Stmt,
    trimTokens flags s.tokens = (blockTokens (s.trim flags).1, (s.trim flags).2)
  | .text content => by
    simp only [Stmt.tokens, trimTokens, Stmt.trim, List.append_nil, blockTokens_texts]
  | .output _ | .assign .. | .assignGlobal .. | .leave .. | .stop _ | .next _ | .include .. => rfl
  | .choose bs none => by
    simp [Stmt.tokens, Stmt.trim, trimTokens_append, tokens_trimBranches flags .if bs, blockTokens]
  | .choose bs (some b) => by
    simp [Stmt.tokens, Stmt.trim, trimTokens_append, tokens_trimBranches flags .if bs,
      tokens_trimBlock _ b, blockTokens]
  | .each ref items b none p => by
    simp [Stmt.tokens, Stmt.trim, trimTokens_append, tokens_trimBlock flags b, blockTokens]
  | .each ref items b (some o) p => by
    simp [Stmt.tokens, Stmt.trim, trimTokens_append, tokens_trimBlock flags b,
      tokens_trimBlock _ o, blockTokens]
  | .repeatWhile c b p => by
    simp [Stmt.tokens, Stmt.trim, trimTokens_append, tokens_trimBlock flags b, blockTokens]
  | .define n name params b p => by
    simp [Stmt.tokens, Stmt.trim, trimTokens_append, tokens_trimBlock flags b, blockTokens]
  | .capture target b => by
    simp [Stmt.tokens, Stmt.trim, trimTokens_append, tokens_trimBlock flags b, blockTokens]

theorem tokens_trimBlock (flags : List Bool) : ∀ b : List Stmt,
    trimTokens flags (blockTokens b) = (blockTokens (trimBlock flags b).1, (trimBlock flags b).2)
  | [] => rfl
  | s :: rest => by
    simp [blockTokens, trimBlock, trimTokens_append, s.tokens_trim flags, tokens_trimBlock _ rest,
      blockTokens_append]

theorem tokens_trimBranches (flags : List Bool) (begins : Expr → Tag) :
    ∀ bs : List (Expr × List Stmt), trimTokens flags (branchTokens begins bs) =
      (branchTokens begins (trimBranches flags bs).1, (trimBranches flags bs).2)
  | [] => rfl
  | (c, b) :: rest => by
    simp [branchTokens, trimBranches, trimTokens_append, tokens_trimBlock flags b,
      tokens_trimBranches _ .elif rest]

end

/-! ## What trimming leaves alone -/

theorem ne_nil_of_trimBranches {flags : List Bool} {bs : List (Expr × List Stmt)} (h : bs ≠ []) :
    (trimBranches flags bs).1 ≠ [] := by
  cases bs with
  | nil => exact absurd rfl h
  | cons branch rest => exact List.cons_ne_nil _ _

theorem blockAsRead_texts (contents : List String) : BlockAsRead (contents.map .text) := by
  induction contents with
  | nil => trivial
  | cons x rest ih => exact ⟨trivial, ih⟩

mutual

theorem Stmt.AsRead.trim (flags : List Bool) :
    ∀ s : Stmt, s.AsRead → BlockAsRead (s.trim flags).1
  | .text _, _ => blockAsRead_texts _
  | .output _, _ | .assign .., _ | .assignGlobal .., _ | .leave .., _ | .stop _, _ | .next _, _
  | .include .., _ => ⟨trivial, trivial⟩
  | .choose bs none, ⟨hne, hbs, _⟩ =>
    ⟨⟨ne_nil_of_trimBranches hne, branchesAsRead_trim flags bs hbs, trivial⟩, trivial⟩
  | .choose bs (some b), ⟨hne, hbs, hb⟩ =>
    ⟨⟨ne_nil_of_trimBranches hne, branchesAsRead_trim flags bs hbs, blockAsRead_trim _ b hb⟩,
      trivial⟩
  | .each _ _ b none _, ⟨hb, _⟩ => ⟨⟨blockAsRead_trim flags b hb, trivial⟩, trivial⟩
  | .each _ _ b (some o) _, ⟨hb, ho⟩ =>
    ⟨⟨blockAsRead_trim flags b hb, blockAsRead_trim _ o ho⟩, trivial⟩
  | .repeatWhile _ b _, hb => ⟨blockAsRead_trim flags b hb, trivial⟩
  | .define _ _ _ b _, ⟨h0, hb⟩ => ⟨⟨h0, blockAsRead_trim flags b hb⟩, trivial⟩
  | .capture _ b, hb => ⟨blockAsRead_trim flags b hb, trivial⟩

theorem blockAsRead_trim (flags : List Bool) :
    ∀ b : List Stmt, BlockAsRead b → BlockAsRead (trimBlock flags b).1
  | [], _ => trivial
  | s :: rest, ⟨hs, hrest⟩ =>
    blockAsRead_append.2 ⟨Stmt.AsRead.trim flags s hs, blockAsRead_trim _ rest hrest⟩

theorem branchesAsRead_trim (flags : List Bool) :
    ∀ bs : List (Expr × List Stmt), BranchesAsRead bs → BranchesAsRead (trimBranches flags bs).1
  | [], _ => trivial
  | (_, b) :: rest, ⟨hb, hrest⟩ => ⟨blockAsRead_trim flags b hb, branchesAsRead_trim _ rest hrest⟩

end

theorem assignedNames_append (b c : Block) :
    assignedNames (b ++ c) = assignedNames b ++ assignedNames c := by
  induction b with
  | nil => rfl
  | cons s rest ih => simp only [List.cons_append, assignedNames, ih, List.append_assoc]

theorem assignedNames_texts (contents : List String) : assignedNames (contents.map .text) = [] := by
  induction contents with
  | nil => rfl
  | cons x rest ih => exact ih

mutual

theorem Stmt.assignedNames_trim (flags : List Bool) :
    ∀ s : Stmt, TemplateEngine.assignedNames (s.trim flags).1 = s.assignedNames
  | .text _ => assignedNames_texts _
  | .output _ | .assign .. | .assignGlobal .. | .leave .. | .stop _ | .next _ | .include .. =>
    List.append_nil _
  | .choose bs none => by
    simp [Stmt.trim, Stmt.assignedNames, TemplateEngine.assignedNames,
      assignedInBranches_trim flags bs]
  | .choose bs (some b) => by
    simp [Stmt.trim, Stmt.assignedNames, TemplateEngine.assignedNames,
      assignedInBranches_trim flags bs, assignedNames_trimBlock _ b]
  | .each _ _ b none _ => by
    simp [Stmt.trim, Stmt.assignedNames, TemplateEngine.assignedNames,
      assignedNames_trimBlock flags b]
  | .each _ _ b (some o) _ => by
    simp [Stmt.trim, Stmt.assignedNames, TemplateEngine.assignedNames,
      assignedNames_trimBlock flags b, assignedNames_trimBlock _ o]
  | .repeatWhile _ b _ => by
    simp [Stmt.trim, Stmt.assignedNames, TemplateEngine.assignedNames,
      assignedNames_trimBlock flags b]
  | .define .. => rfl
  | .capture target b => by
    cases target <;>
      simp [Stmt.trim, Stmt.assignedNames, TemplateEngine.assignedNames,
        assignedNames_trimBlock flags b]

theorem assignedNames_trimBlock (flags : List Bool) :
    ∀ b : List Stmt, assignedNames (trimBlock flags b).1 = assignedNames b
  | [] => rfl
  | s :: rest => by
    simp only [trimBlock, assignedNames, assignedNames_append, s.assignedNames_trim flags,
      assignedNames_trimBlock _ rest]

theorem assignedInBranches_trim (flags : List Bool) : ∀ bs : List (Expr × List Stmt),
    assignedInBranches (trimBranches flags bs).1 = assignedInBranches bs
  | [] => rfl
  | (_, b) :: rest => by
    simp only [trimBranches, assignedInBranches, assignedNames_trimBlock flags b,
      assignedInBranches_trim _ rest]

end

theorem resolveBlock_append (scope : Scope) (b c : Block) :
    resolveBlock scope (b ++ c) = resolveBlock scope b ++ resolveBlock scope c := by
  simp only [resolveBlock_eq_map, List.map_append]

theorem resolveBlock_texts (scope : Scope) (contents : List String) :
    resolveBlock scope (contents.map .text) = contents.map .text := by
  rw [resolveBlock_eq_map, List.map_map]
  rfl

mutual

theorem Stmt.trim_resolve (scope : Scope) (flags : List Bool) : ∀ s : Stmt,
    (s.resolve scope).trim flags = (resolveBlock scope (s.trim flags).1, (s.trim flags).2)
  | .text content => by simp only [Stmt.resolve, Stmt.trim, resolveBlock_texts]
  | .output _ | .assign .. | .assignGlobal .. | .leave .. | .stop _ | .next _ | .include .. => rfl
  | .choose bs none => by
    simp [Stmt.resolve, Stmt.trim, resolveBlock, trimBranches_resolve scope flags bs]
  | .choose bs (some b) => by
    simp [Stmt.resolve, Stmt.trim, resolveBlock, trimBranches_resolve scope flags bs,
      trimBlock_resolve scope _ b]
  | .each ref items b none p => by
    simp [Stmt.resolve, Stmt.trim, resolveBlock, trimBlock_resolve _ flags b]
  | .each ref items b (some o) p => by
    simp [Stmt.resolve, Stmt.trim, resolveBlock, trimBlock_resolve _ flags b,
      trimBlock_resolve scope _ o]
  | .repeatWhile c b p => by
    simp [Stmt.resolve, Stmt.trim, resolveBlock, trimBlock_resolve _ flags b]
  | .define n name params b p => by
    simp [Stmt.resolve, Stmt.trim, resolveBlock, trimBlock_resolve _ flags b, Scope.body,
      assignedNames_trimBlock flags b]
  | .capture target b => by
    simp [Stmt.resolve, Stmt.trim, resolveBlock, trimBlock_resolve scope flags b]

theorem trimBlock_resolve (scope : Scope) (flags : List Bool) : ∀ b : List Stmt,
    trimBlock flags (resolveBlock scope b) =
      (resolveBlock scope (trimBlock flags b).1, (trimBlock flags b).2)
  | [] => rfl
  | s :: rest => by
    simp only [resolveBlock, trimBlock, s.trim_resolve scope flags, trimBlock_resolve scope _ rest,
      resolveBlock_append]

theorem trimBranches_resolve (scope : Scope) (flags : List Bool) :
    ∀ bs : List (Expr × List Stmt), trimBranches flags (resolveBranches scope bs) =
      (resolveBranches scope (trimBranches flags bs).1, (trimBranches flags bs).2)
  | [] => rfl
  | (_, b) :: rest => by
    simp [resolveBranches, trimBranches, trimBlock_resolve scope flags b,
      trimBranches_resolve scope _ rest]

end

theorem strayControl?_append (inLoop : Bool) (b c : Block) :
    strayControl? inLoop (b ++ c) = (strayControl? inLoop b).or (strayControl? inLoop c) := by
  induction b with
  | nil => rfl
  | cons s rest ih => simp only [List.cons_append, strayControl?, ih, Option.or_assoc]

theorem strayControl?_texts (inLoop : Bool) (contents : List String) :
    strayControl? inLoop (contents.map .text) = none := by
  induction contents with
  | nil => rfl
  | cons x rest ih => exact ih

mutual

theorem Stmt.strayControl?_trim (inLoop : Bool) (flags : List Bool) : ∀ s : Stmt,
    TemplateEngine.strayControl? inLoop (s.trim flags).1 = s.strayControl? inLoop
  | .text _ => strayControl?_texts inLoop _
  | .output _ | .assign .. | .assignGlobal .. | .leave .. | .stop _ | .next _ | .include .. =>
    Option.or_none
  | .choose bs none => by
    simp [Stmt.trim, TemplateEngine.strayControl?, Stmt.strayControl?,
      strayInBranches?_trim inLoop flags bs]
  | .choose bs (some b) => by
    simp [Stmt.trim, TemplateEngine.strayControl?, Stmt.strayControl?,
      strayInBranches?_trim inLoop flags bs, strayControl?_trimBlock inLoop _ b]
  | .each _ _ b none _ => by
    simp [Stmt.trim, TemplateEngine.strayControl?, Stmt.strayControl?,
      strayControl?_trimBlock _ flags b]
  | .each _ _ b (some o) _ => by
    simp [Stmt.trim, TemplateEngine.strayControl?, Stmt.strayControl?,
      strayControl?_trimBlock _ flags b, strayControl?_trimBlock inLoop _ o]
  | .repeatWhile _ b _ | .define _ _ _ b _ | .capture _ b => by
    simp [Stmt.trim, TemplateEngine.strayControl?, Stmt.strayControl?,
      strayControl?_trimBlock _ flags b]

theorem strayControl?_trimBlock (inLoop : Bool) (flags : List Bool) : ∀ b : List Stmt,
    strayControl? inLoop (trimBlock flags b).1 = strayControl? inLoop b
  | [] => rfl
  | s :: rest => by
    simp only [trimBlock, strayControl?, strayControl?_append, s.strayControl?_trim inLoop flags,
      strayControl?_trimBlock inLoop _ rest]

theorem strayInBranches?_trim (inLoop : Bool) (flags : List Bool) :
    ∀ bs : List (Expr × List Stmt),
      strayInBranches? inLoop (trimBranches flags bs).1 = strayInBranches? inLoop bs
  | [] => rfl
  | (_, b) :: rest => by
    simp only [trimBranches, strayInBranches?, strayControl?_trimBlock inLoop flags b,
      strayInBranches?_trim inLoop _ rest]

end

end TemplateEngine
