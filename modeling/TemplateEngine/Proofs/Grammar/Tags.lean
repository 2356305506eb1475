import TemplateEngine.Proofs.Grammar.Expressions

/-!
# Statement tags in the grammar

Each scanner of a tag follows its rule, and the phrase of the rule stands for the tag: the operands
come in the order in which the tag takes them, and the keywords between them are left out.
-/

namespace TemplateEngine

open Scanner

variable {n : Nat}

/-- The phrase stands for the tag. -/
def IsTag (p : Phrase) (t : Tag) : Prop :=
  Yields (oversizedItem? t.exprs) p (fun bounded => p.toTag bounded) t

/-! ## Operands -/

/-- The phrase is that of a keyword. -/
def IsKeyword (p : Phrase) : Prop := p.rule = .keyword ∧ p.parts = []

/-- The phrase is that of a name. -/
def IsName (p : Phrase) (name : String) : Prop :=
  p.rule = .identifier ∧ p.parts = [] ∧ p.lexeme = name.toList

/-- Of the parts of a tag these are the operands, with the first integer that is out of range. -/
structure Operands (parts operands : List Phrase) (found : Option Position) : Prop where
  operands : parts.filter (fun p => p.rule ≠ .keyword) = operands
  found : firstOversized? parts = found

namespace Operands

variable {p : Phrase} {ps operands : List Phrase} {found more : Option Position}

theorem nil : Operands [] [] none := ⟨rfl, rfl⟩

theorem keyword (hp : IsKeyword p) (h : Operands ps operands found) :
    Operands (p :: ps) operands found := by
  refine ⟨?_, ?_⟩
  · rw [List.filter_cons_of_neg (by simp [hp.1]), h.operands]
  · rw [firstOversized?_cons, firstOversized?_of_ne .keyword (by decide) hp.1, hp.2,
      firstOversized?_nil, Option.none_or, h.found]

theorem cons {r : Rule} (hrule : p.rule = r) (hr : r ≠ .keyword)
    (hfound : firstOversized? [p] = more) (h : Operands ps operands found) :
    Operands (p :: ps) (p :: operands) (more.or found) := by
  refine ⟨?_, ?_⟩
  · rw [List.filter_cons_of_pos (by simp [hrule, hr]), h.operands]
  · rw [firstOversized?_cons, hfound, h.found]

theorem expr {e : Expr} (hp : IsExpr p e) (h : Operands ps operands found) :
    Operands (p :: ps) (p :: operands) (e.oversized?.or found) :=
  .cons hp.rule (by decide) hp.found h

theorem operand {e : Expr} (hp : IsOperand p e) (h : Operands ps operands found) :
    Operands (p :: ps) (p :: operands) (e.oversized?.or found) :=
  .cons hp.rule (by decide) hp.found h

theorem name {name : String} (hp : IsName p name) (h : Operands ps operands found) :
    Operands (p :: ps) (p :: operands) found := by
  have hfound : firstOversized? [p] = none := by
    rw [firstOversized?_of_ne .identifier (by decide) hp.1, hp.2.1, firstOversized?_nil]
  have hcons := Operands.cons hp.1 (by decide) hfound h
  rwa [Option.none_or] at hcons

theorem names {params : List String} (h : List.Forall₂ IsName ps params) : Operands ps ps none := by
  induction h with
  | nil => exact nil
  | cons hp _ ih => exact name hp ih

/-- A tag is what is made of its operands. -/
theorem isTag {r : Rule} {tag : Tag} {position : Position} {lexeme : List Char}
    (h : Operands ps operands (oversizedItem? tag.exprs)) (hr : r ≠ .int)
    (hbuilt : ∀ bounded, tagOf bounded r position operands =
      checked bounded (oversizedItem? tag.exprs) tag) :
    IsTag ⟨r, position, lexeme, ps⟩ tag := by
  refine ⟨fun bounded => ?_, by rw [firstOversized?_of_ne r hr rfl, h.found]⟩
  rw [← hbuilt, ← h.operands]
  rfl

end Operands

/-- Among the parts is the expression that may be left out, as the only operand if it is there. -/
def IsOptional (parts : List Phrase) (e : Option Expr) : Prop :=
  ∃ operands, Operands parts operands (oversizedItem? e.toList) ∧
    ∀ bounded, optionalExpr bounded operands = checked bounded (oversizedItem? e.toList) e

theorem IsOptional.none : IsOptional [] none :=
  ⟨[], .nil, fun bounded => by cases bounded <;> rfl⟩

theorem IsOptional.some {p : Phrase} {e : Expr} (h : IsExpr p e) : IsOptional [p] (some e) := by
  rw [IsOptional, Option.toList_some, oversizedItem?, oversizedItem?]
  refine ⟨[p], .expr h .nil, fun bounded => ?_⟩
  rw [optionalExpr, h.built, Option.or_none]
  exact checked_map _ _ _ _

theorem IsOptional.keyword {k : Phrase} {ps : List Phrase} {e : Option Expr} (hk : IsKeyword k)
    (h : IsOptional ps e) : IsOptional (k :: ps) e := by
  obtain ⟨operands, hoperands, hbuilt⟩ := h
  exact ⟨operands, .keyword hk hoperands, hbuilt⟩

/-- A rule that is read in the mode around it is not that of integers. -/
theorem Rule.ne_int {r : Rule} (h : r.kind = .plain) : r ≠ .int := by
  rintro rfl
  cases h

theorem follows_stem {stem : String} (h : stem.toList.head?.any (fun x => !isGap x) = true) :
    Follows n .spaced (.keyword stem) (keyword stem)
      fun _ ps _ _ => ∃ k, ps = [k] ∧ IsKeyword k := by
  refine (follows_keyword h).mono ?_
  rintro _ _ _ _ ⟨p, text, rfl⟩
  exact ⟨_, rfl, rfl, rfl⟩

theorem follows_name : Follows n .spaced (.rule .identifier) identifier
    fun _ ps _ name => List.Forall₂ IsName ps [name] := by
  refine (follows_identifier (by decide)).mono ?_
  rintro c _ d name rfl
  exact .cons ⟨rfl, rfl, rfl⟩ .nil

theorem lexemes_of_names {ps : List Phrase} {names : List String}
    (h : List.Forall₂ IsName ps names) : ps.map (fun p => String.ofList p.lexeme) = names := by
  induction h with
  | nil => rfl
  | cons hp _ ih => rw [List.map_cons, hp.2.2, String.ofList_toList, ih]

theorem follows_bound (scope : ScopeKind) : Follows n .spaced (.rule .identifier) (bound scope)
    fun _ ps _ ref => ∃ p, ps = [p] ∧ IsName p ref.name ∧ p.bound scope = ref := by
  refine .here fun position => (follows_identifier (by decide)).map ?_
  rintro c _ d name rfl rfl
  refine ⟨_, rfl, ⟨rfl, rfl, rfl⟩, ?_⟩
  rw [Phrase.bound, String.ofList_toList]

/-! ## Tags -/

/-- A tag that is its keyword alone. -/
theorem follows_bareTag (r : Rule) (tag : Tag) (hkind : r.kind = .plain)
    (hbody : r.body = .keyword tag.word) (hexprs : tag.exprs = [])
    (htag : ∀ bounded p, tagOf bounded r p [] = .ok tag)
    (hword : tag.word.toList.head?.any (fun x => !isGap x) = true) :
    Follows n .spaced (.rule r) (bareTag tag) fun _ ps _ t => List.Forall₂ IsTag ps [t] := by
  refine .rule ?_
  rw [hbody, hkind]
  refine (follows_stem hword).map ?_
  rintro c _ d _ ⟨k, rfl, hk⟩
  have hoperands : Operands [k] [] (oversizedItem? tag.exprs) := by
    rw [hexprs]
    exact .keyword hk .nil
  rw [Rule.phrases, hkind]
  refine .cons (hoperands.isTag (Rule.ne_int hkind) fun bounded => ?_) .nil
  rw [htag, hexprs]
  cases bounded <;> rfl

/-- A keyword and one expression. -/
theorem follows_exprTag (r : Rule) (word : String) (make : Expr → Tag) (hkind : r.kind = .plain)
    (hbody : r.body = .row [.keyword word, .rule .expression]) (hexprs : ∀ e, (make e).exprs = [e])
    (htag : ∀ bounded, tagOf bounded r = exprTagOf bounded make)
    (hword : word.toList.head?.any (fun x => !isGap x) = true) :
    Follows n .spaced (.rule r) (exprTag word make)
      fun _ ps _ t => List.Forall₂ IsTag ps [t] := by
  refine .rule ?_
  rw [hbody, hkind]
  refine .seq (follows_stem hword) ?_
  rintro c _ _ _ ⟨k, rfl, hk⟩
  refine (follows_oneExpr n).map ?_
  rintro _ _ d e ⟨p, rfl, he⟩
  have hoperands : Operands [k, p] [p] (oversizedItem? (make e).exprs) := by
    rw [hexprs]
    exact .keyword hk (.expr he .nil)
  rw [Rule.phrases, hkind]
  refine .cons (hoperands.isTag (Rule.ne_int hkind) fun bounded => ?_) .nil
  rw [htag, hexprs, oversizedItem?, oversizedItem?, Option.or_none]
  show (do let e ← p.toExpr bounded; pure (make e)) = _
  rw [he.built]
  exact checked_map _ _ _ _

/-- An assignment. -/
theorem follows_setTag : Follows n .spaced (.rule .setTag) setTag
    fun _ ps _ t => List.Forall₂ IsTag ps [t] := by
  refine .rule (.seq (follows_stem (by decide +kernel)) ?_)
  rintro _ _ _ _ ⟨k, rfl, hk⟩
  refine .seq (follows_target n) ?_
  rintro _ _ _ target ⟨p, rfl, htarget⟩
  refine .seq (.exactly "=") ?_
  rintro _ _ _ _ ⟨rfl, -⟩
  refine (follows_oneExpr n).map ?_
  rintro _ _ _ value ⟨q, rfl, hvalue⟩
  have hoperands : Operands [k, p, q] [p, q] (oversizedItem? [target, value]) :=
    .keyword hk (.operand htarget (.expr hvalue .nil))
  refine .cons (hoperands.isTag (by decide) fun bounded => ?_) .nil
  show (do
    let target ← p.toOperand bounded
    let value ← q.toExpr bounded
    pure (Tag.set target value)) = _
  rw [htarget.built, hvalue.built, Tag.exprs, oversizedItem?, oversizedItem?, oversizedItem?,
    Option.or_none]
  exact checked_bind (checked_map _ _ _ _)

/-- An assignment to a global name. -/
theorem follows_globalTag : Follows n .spaced (.rule .globalTag) globalTag
    fun _ ps _ t => List.Forall₂ IsTag ps [t] := by
  refine .rule (.seq (follows_stem (by decide +kernel)) ?_)
  rintro _ _ _ _ ⟨k, rfl, hk⟩
  refine .seq (follows_bound .global) ?_
  rintro _ _ _ _ ⟨p, rfl, hname, rfl⟩
  refine .seq (.exactly "=") ?_
  rintro _ _ _ _ ⟨rfl, -⟩
  refine (follows_oneExpr n).map ?_
  rintro _ _ _ value ⟨q, rfl, hvalue⟩
  have hoperands : Operands [k, p, q] [p, q] (oversizedItem? [value]) :=
    .keyword hk (.name hname (.expr hvalue .nil))
  refine .cons (hoperands.isTag (by decide) fun bounded => ?_) .nil
  show (do let value ← q.toExpr bounded; pure (Tag.setGlobal (p.bound .global) value)) = _
  rw [hvalue.built, Tag.exprs, oversizedItem?, oversizedItem?, Option.or_none]
  exact checked_map _ _ _ _

/-- The head of a loop, in which two keywords are left out. -/
theorem follows_forTag : Follows n .spaced (.rule .forTag) forTag
    fun _ ps _ t => List.Forall₂ IsTag ps [t] := by
  refine .rule (.seq (follows_stem (by decide +kernel)) ?_)
  rintro _ _ _ _ ⟨k, rfl, hk⟩
  refine .seq (follows_bound .loop) ?_
  rintro _ _ _ _ ⟨p, rfl, hname, rfl⟩
  refine .seq (follows_stem (by decide +kernel)) ?_
  rintro _ _ _ _ ⟨l, rfl, hl⟩
  refine (follows_oneExpr n).map ?_
  rintro _ _ _ items ⟨q, rfl, hitems⟩
  have hoperands : Operands [k, p, l, q] [p, q] (oversizedItem? [items]) :=
    .keyword hk (.name hname (.keyword hl (.expr hitems .nil)))
  refine .cons (hoperands.isTag (by decide) fun bounded => ?_) .nil
  show (do let items ← q.toExpr bounded; pure (Tag.for (p.bound .loop) items)) = _
  rw [hitems.built, Tag.exprs, oversizedItem?, oversizedItem?, Option.or_none]
  exact checked_map _ _ _ _

/-- A name and its parameters. -/
theorem follows_functionTag : Follows n .spaced (.rule .functionTag) functionTag
    fun _ ps _ t => List.Forall₂ IsTag ps [t] := by
  have hparams : Follows n .spaced (.optional (.separated (.rule .identifier)))
      (optional (separated identifier))
      fun _ ps _ params => List.Forall₂ IsName ps (params.getD []) :=
    .optional (.separated follows_name) (fun _ => .nil) fun _ _ _ _ hparams => hparams
  refine .rule (.seq (follows_stem (by decide +kernel)) ?_)
  rintro _ _ _ _ ⟨k, rfl, hk⟩
  refine .seq (follows_bound .global) ?_
  rintro _ _ _ _ ⟨p, rfl, hname, rfl⟩
  refine .seq (.exactly "(") ?_
  rintro _ _ _ _ ⟨rfl, -⟩
  refine .seq hparams fun _ ps _ params hparams => ?_
  refine (Follows.exactly ")").map ?_
  rintro _ _ _ _ ⟨rfl, -⟩
  have hoperands : Operands (k :: p :: ps) (p :: ps) (oversizedItem? []) :=
    .keyword hk (.name hname (.names hparams))
  rw [List.append_nil]
  refine .cons (hoperands.isTag (by decide) fun bounded => ?_) .nil
  rw [← lexemes_of_names hparams]
  cases bounded <;> rfl

/-- A value that may be left out. -/
theorem follows_returnTag : Follows n .spaced (.rule .returnTag) returnTag
    fun _ ps _ t => List.Forall₂ IsTag ps [t] := by
  have hvalue : Follows n .spaced (.optional (.rule .expression)) (optional expression)
      fun _ ps _ value => IsOptional ps value := by
    refine .optional (follows_oneExpr n) (fun _ => .none) ?_
    rintro _ _ _ value ⟨p, rfl, hvalue⟩
    exact .some hvalue
  refine .rule (.seq (follows_stem (by decide +kernel)) ?_)
  rintro _ _ _ _ ⟨k, rfl, hk⟩
  refine hvalue.map ?_
  rintro _ ps _ value ⟨operands, hoperands, hbuilt⟩
  refine .cons ((Operands.keyword hk hoperands).isTag (by decide) fun bounded => ?_) .nil
  show (do let value ← optionalExpr bounded operands; pure (Tag.return value)) = _
  rw [hbuilt]
  exact checked_map _ _ _ _

/-- A target. -/
theorem follows_captureTag : Follows n .spaced (.rule .captureTag) captureTag
    fun _ ps _ t => List.Forall₂ IsTag ps [t] := by
  refine .rule (.seq (follows_stem (by decide +kernel)) ?_)
  rintro _ _ _ _ ⟨k, rfl, hk⟩
  refine (follows_target n).map ?_
  rintro _ _ _ target ⟨p, rfl, htarget⟩
  have hoperands : Operands [k, p] [p] (oversizedItem? [target]) :=
    .keyword hk (.operand htarget .nil)
  refine .cons (hoperands.isTag (by decide) fun bounded => ?_) .nil
  show (do let target ← p.toOperand bounded; pure (Tag.capture target)) = _
  rw [htarget.built, Tag.exprs, oversizedItem?, oversizedItem?, Option.or_none]
  exact checked_map _ _ _ _

/-- A path, and a model behind a second keyword. -/
theorem follows_includeTag : Follows n .spaced (.rule .includeTag) includeTag
    fun _ ps _ t => List.Forall₂ IsTag ps [t] := by
  have hwith : Follows n .spaced (.row [.keyword "with", .rule .expression])
      (keyword "with" >>= fun _ => blanks >>= fun _ => expression)
      fun _ ps _ model => IsOptional ps (some model) := by
    refine .seq (follows_stem (by decide +kernel)) ?_
    rintro _ _ _ _ ⟨l, rfl, hl⟩
    refine (follows_oneExpr n).mono ?_
    rintro _ _ _ model ⟨p, rfl, hmodel⟩
    exact .keyword hl (.some hmodel)
  have hmodel : Follows n .spaced (.optional (.row [.keyword "with", .rule .expression]))
      (optional (keyword "with" >>= fun _ => blanks >>= fun _ => expression))
      fun _ ps _ model => IsOptional ps model :=
    .optional hwith (fun _ => .none) fun _ _ _ _ hmodel => hmodel
  refine .rule (.seq (follows_stem (by decide +kernel)) ?_)
  rintro _ _ _ _ ⟨k, rfl, hk⟩
  refine .seq (follows_oneExpr n) ?_
  rintro _ _ _ path ⟨p, rfl, hpath⟩
  refine hmodel.map ?_
  rintro _ ps _ model ⟨operands, hoperands, hbuilt⟩
  have hall : Operands (k :: p :: ps) (p :: operands) (oversizedItem? (path :: model.toList)) :=
    .keyword hk (.expr hpath hoperands)
  refine .cons (hall.isTag (by decide) fun bounded => ?_) .nil
  show (do
    let path ← p.toExpr bounded
    let model ← optionalExpr bounded operands
    pure (Tag.include path model)) = _
  rw [hpath.built, hbuilt, Tag.exprs, oversizedItem?]
  exact checked_bind (checked_map _ _ _ _)

/-- A statement tag. -/
theorem follows_tag : Follows n .spaced .tag tag fun _ ps _ t => List.Forall₂ IsTag ps [t] :=
  have bare (r : Rule) (tag : Tag) := follows_bareTag (n := n) r tag
  have expr (r : Rule) (word : String) (make : Expr → Tag) := follows_exprTag (n := n) r word make
  .more follows_setTag <|
  .more follows_globalTag <|
  .more (expr .ifTag "if" .if rfl rfl (fun _ => rfl) (fun _ => rfl) (by decide +kernel)) <|
  .more (expr .elifTag "elif" .elif rfl rfl (fun _ => rfl) (fun _ => rfl) (by decide +kernel)) <|
  .more (bare .elseTag .else rfl rfl rfl (fun _ _ => rfl) (by decide +kernel)) <|
  .more (bare .endifTag .endif rfl rfl rfl (fun _ _ => rfl) (by decide +kernel)) <|
  .more follows_forTag <|
  .more (bare .endforTag .endfor rfl rfl rfl (fun _ _ => rfl) (by decide +kernel)) <|
  .more (expr .whileTag "while" .while rfl rfl (fun _ => rfl) (fun _ => rfl) (by decide +kernel)) <|
  .more (bare .endwhileTag .endwhile rfl rfl rfl (fun _ _ => rfl) (by decide +kernel)) <|
  .more (bare .breakTag .break rfl rfl rfl (fun _ _ => rfl) (by decide +kernel)) <|
  .more (bare .continueTag .continue rfl rfl rfl (fun _ _ => rfl) (by decide +kernel)) <|
  .more follows_functionTag <|
  .more (bare .endfunctionTag .endfunction rfl rfl rfl (fun _ _ => rfl) (by decide +kernel)) <|
  .more follows_returnTag <|
  .more follows_captureTag <|
  .more (bare .endcaptureTag .endcapture rfl rfl rfl (fun _ _ => rfl) (by decide +kernel)) <|
  .one follows_includeTag

end TemplateEngine
