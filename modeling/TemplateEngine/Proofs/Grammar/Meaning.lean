import Mathlib.Data.List.Forall2
import TemplateEngine.Proofs.Grammar.Building

/-!
# What phrases stand for

A phrase stands for an expression if that is what is built of it, but for one thing: where integers
are bounded and one in the phrase is out of range, the first of these is the fault (`Yields`). No
other fault is left. What stands for parts stands for the whole: for operators and operands this
goes by their order of writing, which grouping keeps (`OpTree.build_map`).
-/

namespace TemplateEngine

/-! ## Integers out of range -/

mutual

/-- A phrase and the phrases in it, in the order of the source. -/
def Phrase.phrases : Phrase → List Phrase
  | ⟨rule, position, lexeme, parts⟩ => ⟨rule, position, lexeme, parts⟩ :: phrasesIn parts

/-- Phrases and the phrases in them, in the order of the source. -/
def phrasesIn : List Phrase → List Phrase
  | [] => []
  | p :: rest => p.phrases ++ phrasesIn rest

end

/-- An integer literal that no integer value can hold. -/
def Phrase.Oversized (p : Phrase) : Prop :=
  p.rule = .int ∧ Integer.greatest < Integer.ofDigits p.lexeme

instance (p : Phrase) : Decidable p.Oversized := inferInstanceAs (Decidable (_ ∧ _))

/-- The place of the first integer literal in phrases that is out of range. -/
def firstOversized? (ps : List Phrase) : Option Position :=
  ((phrasesIn ps).find? fun p => p.Oversized).map (·.position)

theorem phrasesIn_append (ps qs : List Phrase) :
    phrasesIn (ps ++ qs) = phrasesIn ps ++ phrasesIn qs := by
  induction ps with
  | nil => rfl
  | cons p ps ih => rw [List.cons_append, phrasesIn, ih, phrasesIn, List.append_assoc]

theorem phrasesIn_singleton (p : Phrase) : phrasesIn [p] = p :: phrasesIn p.parts := by
  obtain ⟨rule, position, lexeme, parts⟩ := p
  rw [phrasesIn, phrasesIn, List.append_nil, Phrase.phrases]

@[simp] theorem firstOversized?_nil : firstOversized? [] = none := rfl

theorem firstOversized?_append (ps qs : List Phrase) :
    firstOversized? (ps ++ qs) = (firstOversized? ps).or (firstOversized? qs) := by
  rw [firstOversized?, phrasesIn_append, List.find?_append, Option.map_or]
  rfl

theorem firstOversized?_cons (p : Phrase) (ps : List Phrase) :
    firstOversized? (p :: ps) = (firstOversized? [p]).or (firstOversized? ps) :=
  firstOversized?_append [p] ps

/-- A phrase that is no integer has the integers of its parts. -/
theorem firstOversized?_of_ne {p : Phrase} (r : Rule) (hr : r ≠ .int) (hrule : p.rule = r) :
    firstOversized? [p] = firstOversized? p.parts := by
  rw [firstOversized?, phrasesIn_singleton, List.find?_cons_of_neg]
  · rfl
  · simp [Phrase.Oversized, hrule, hr]

section

variable {α β : Type}

/-- What is built where an integer that is out of range may have been found, which is a fault where
integers are bounded. -/
def checked (bounded : Bool) (found : Option Position) (a : α) : Except BuildError α :=
  match bounded, found with
  | true, some p => .error ⟨p, .literalRange⟩
  | _, _ => .ok a

theorem checked_bind {bounded : Bool} {found more : Option Position} {a : α}
    {f : α → Except BuildError β} {b : β} (h : f a = checked bounded more b) :
    (checked bounded found a >>= f) = checked bounded (found.or more) b := by
  cases bounded with
  | false => exact h
  | true =>
    cases found with
    | none => exact h
    | some p => rfl

theorem checked_map (bounded : Bool) (found : Option Position) (a : α) (f : α → β) :
    (do let x ← checked bounded found a; pure (f x)) = checked bounded found (f a) := by
  cases bounded <;> cases found <;> rfl

/-- Of the phrase `a` is built, unless integers are bounded and one in it is out of range; the first
of these is found. -/
structure Yields (found : Option Position) (p : Phrase) (built : Bool → Except BuildError α)
    (a : α) : Prop where
  built : ∀ bounded, built bounded = checked bounded found a
  found : firstOversized? [p] = found

end

/-- The phrase stands for the expression. -/
structure IsExpr (p : Phrase) (e : Expr) : Prop
    extends Yields e.oversized? p (fun bounded => p.toExpr bounded) e where
  rule : p.rule = .expression

/-- The phrase stands for the primary expression. -/
def IsPrimary (p : Phrase) (e : Expr) : Prop :=
  Yields e.oversized? p (fun bounded => p.toPrimary bounded) e

/-- The phrase stands for the operand. -/
structure IsOperand (p : Phrase) (e : Expr) : Prop
    extends Yields e.oversized? p (fun bounded => p.toOperand bounded) e where
  rule : p.rule = .operand

/-- The phrase stands for the step from an expression to what is reached from it. -/
structure IsAccess (p : Phrase) (access : Expr → Expr) : Prop where
  built : ∀ bounded e, p.toAccess bounded e = checked bounded (firstOversized? [p]) (access e)
  found : ∀ e, (access e).oversized? = e.oversized?.or (firstOversized? [p])

/-- The phrase stands for the entry. -/
def IsEntry (p : Phrase) (entry : String × Expr) : Prop :=
  Yields entry.2.oversized? p (fun bounded => p.toEntry bounded) entry

/-! ## Phrases in a row -/

section

variable {ps : List Phrase}

theorem exprsOf_eq {es : List Expr} (h : List.Forall₂ IsExpr ps es) :
    (∀ bounded, exprsOf bounded ps = checked bounded (oversizedItem? es) es) ∧
      firstOversized? ps = oversizedItem? es := by
  induction h with
  | nil => exact ⟨fun bounded => by cases bounded <;> rfl, rfl⟩
  | @cons p e ps es hp _ ih =>
    refine ⟨fun bounded => ?_, by rw [firstOversized?_cons, hp.found, ih.2, oversizedItem?]⟩
    rw [exprsOf, hp.built, oversizedItem?]
    refine checked_bind ?_
    rw [ih.1]
    exact checked_map _ _ _ _

theorem entriesOf_eq {entries : List (String × Expr)} (h : List.Forall₂ IsEntry ps entries) :
    (∀ bounded, entriesOf bounded ps = checked bounded (oversizedValue? entries) entries) ∧
      firstOversized? ps = oversizedValue? entries := by
  induction h with
  | nil => exact ⟨fun bounded => by cases bounded <;> rfl, rfl⟩
  | @cons p entry ps entries hp _ ih =>
    refine ⟨fun bounded => ?_, by rw [firstOversized?_cons, hp.found, ih.2, oversizedValue?]⟩
    rw [entriesOf, hp.built, oversizedValue?]
    refine checked_bind ?_
    rw [ih.1]
    exact checked_map _ _ _ _

end

/-! ## Operands -/

section

variable {ps : List Phrase} (position : Position) (lexeme : List Char)

theorem isAccess_member {name : Phrase} (hname : firstOversized? [name] = none) :
    IsAccess ⟨.member, position, lexeme, [name]⟩
      fun e => .member e (String.ofList name.lexeme) position := by
  have hfound : firstOversized? [⟨.member, position, lexeme, [name]⟩] = none := by
    rw [firstOversized?_of_ne .member (by decide) rfl, hname]
  refine ⟨fun bounded e => ?_, fun e => ?_⟩
  · rw [hfound, Phrase.toAccess]
    cases bounded <;> rfl
  · rw [hfound, Expr.oversized?, Option.or_none]

theorem isAccess_index {p : Phrase} {key : Expr} (h : IsExpr p key) :
    IsAccess ⟨.index, position, lexeme, [p]⟩ fun e => .index e key position := by
  have hfound : firstOversized? [⟨.index, position, lexeme, [p]⟩] = key.oversized? := by
    rw [firstOversized?_of_ne .index (by decide) rfl, h.found]
  refine ⟨fun bounded e => ?_, fun e => ?_⟩
  · rw [hfound, Phrase.toAccess, h.built]
    exact checked_map _ _ _ _
  · rw [hfound, Expr.oversized?]

theorem isAccess_arguments {args : List Expr} (h : List.Forall₂ IsExpr ps args) :
    IsAccess ⟨.arguments, position, lexeme, ps⟩ fun e => .call e args position := by
  obtain ⟨hbuilt, hparts⟩ := exprsOf_eq h
  have hfound : firstOversized? [⟨.arguments, position, lexeme, ps⟩] = oversizedItem? args := by
    rw [firstOversized?_of_ne .arguments (by decide) rfl, hparts]
  refine ⟨fun bounded e => ?_, fun e => ?_⟩
  · rw [hfound, Phrase.toAccess, hbuilt]
    exact checked_map _ _ _ _
  · rw [hfound, Expr.oversized?]

theorem isPrimary_list {items : List Expr} (h : List.Forall₂ IsExpr ps items) :
    IsPrimary ⟨.list, position, lexeme, ps⟩ (.list items position) := by
  obtain ⟨hbuilt, hparts⟩ := exprsOf_eq h
  refine ⟨fun bounded => ?_, ?_⟩
  · rw [Phrase.toPrimary, hbuilt]
    exact checked_map _ _ _ _
  · rw [firstOversized?_of_ne .list (by decide) rfl, hparts, Expr.oversized?]

theorem isPrimary_map {entries : List (String × Expr)} (h : List.Forall₂ IsEntry ps entries) :
    IsPrimary ⟨.map, position, lexeme, ps⟩ (.map entries position) := by
  obtain ⟨hbuilt, hparts⟩ := entriesOf_eq h
  refine ⟨fun bounded => ?_, ?_⟩
  · rw [Phrase.toPrimary, hbuilt]
    exact checked_map _ _ _ _
  · rw [firstOversized?_of_ne .map (by decide) rfl, hparts, Expr.oversized?]

theorem isPrimary_variable : IsPrimary ⟨.identifier, position, lexeme, []⟩
    (.var ⟨String.ofList lexeme, .global, position⟩) :=
  ⟨fun bounded => by rw [Phrase.toPrimary]; cases bounded <;> rfl,
    firstOversized?_of_ne .identifier (by decide) rfl⟩

/-- A group is the expression in it. -/
theorem IsExpr.isPrimary {p : Phrase} {e : Expr} (h : IsExpr p e) : IsPrimary p e := by
  obtain ⟨rule, position, text, parts⟩ := p
  obtain rfl : rule = .expression := h.rule
  refine ⟨fun bounded => ?_, h.found⟩
  rw [← h.built, Phrase.toPrimary, Phrase.toExpr]

/-- A key and a value. -/
theorem isEntry_of_parts {p q : Phrase} {key : String} {e : Expr} (hkey : p.toKey = .ok key)
    (hfound : firstOversized? [p] = none) (h : IsExpr q e) :
    IsEntry ⟨.mapEntry, position, lexeme, [p, q]⟩ (key, e) := by
  refine ⟨fun bounded => ?_, ?_⟩
  · rw [Phrase.toEntry, hkey, h.built]
    exact checked_map _ _ _ _
  · rw [firstOversized?_of_ne .mapEntry (by decide) rfl, firstOversized?_cons, hfound, h.found]
    rfl

/-- Accessors reach from an expression what their steps reach one after the other. -/
theorem accessOf_eq {accesses : List (Expr → Expr)} (h : List.Forall₂ IsAccess ps accesses)
    (e : Expr) :
    (∀ bounded, accessOf bounded e ps =
      checked bounded (firstOversized? ps) (accesses.foldl (fun e access => access e) e)) ∧
      (accesses.foldl (fun e access => access e) e).oversized? =
        e.oversized?.or (firstOversized? ps) := by
  induction h generalizing e with
  | nil => exact ⟨fun bounded => by cases bounded <;> rfl, Option.or_none.symm⟩
  | @cons p access ps accesses hp _ ih =>
    obtain ⟨hbuilt, hfound⟩ := ih (access e)
    rw [firstOversized?_cons, List.foldl_cons]
    refine ⟨fun bounded => ?_, by rw [hfound, hp.found, Option.or_assoc]⟩
    rw [accessOf, hp.built]
    exact checked_bind (hbuilt bounded)

/-- A primary and its accessors. -/
theorem isOperand_of_parts {first : Phrase} {e : Expr} {accesses : List (Expr → Expr)}
    (hfirst : IsPrimary first e) (h : List.Forall₂ IsAccess ps accesses) :
    IsOperand ⟨.operand, position, lexeme, first :: ps⟩
      (accesses.foldl (fun e access => access e) e) := by
  obtain ⟨hbuilt, hfound⟩ := accessOf_eq h e
  refine ⟨⟨fun bounded => ?_, ?_⟩, rfl⟩
  · rw [hfound, Phrase.toOperand, hfirst.built]
    exact checked_bind (hbuilt bounded)
  · rw [firstOversized?_of_ne .operand (by decide) rfl, firstOversized?_cons, hfirst.found, hfound]

end

/-! ## Operators and operands -/

section

variable {α β : Type} (f : α → β)

/-- The item with another operand. -/
def Item.map : Item α → Item β
  | .unary sign => .unary sign
  | .binary sign => .binary sign
  | .operand a => .operand (f a)

/-- The link with another operand. -/
def Link.map (link : Link α) : Link β := ⟨link.sign, link.unary, f link.operand⟩

/-- The chain with other operands. -/
def Chain.map (chain : Chain α) : Chain β :=
  ⟨chain.unary, f chain.head, chain.links.map (Link.map f)⟩

/-- The tree with other operands. -/
def OpTree.map : OpTree α → OpTree β
  | .operand a => .operand (f a)
  | .unary sign t => .unary sign t.map
  | .binary l sign r => .binary l.map sign r.map

/-- The operator that waits, with other operands. -/
def Pending.map : Pending α → Pending β
  | .unary sign => .unary sign
  | .binary left sign => .binary (left.map f) sign

theorem Link.items_map (link : Link α) : (link.map f).items = link.items.map (Item.map f) := by
  simp [Link.items, Link.map, Item.map]

theorem Chain.items_map (chain : Chain α) : (chain.map f).items = chain.items.map (Item.map f) := by
  simp [Chain.items, Chain.map, Item.map, List.flatMap_map, List.map_flatMap, Link.items_map]

theorem Pending.close_map (p : Pending α) (t : OpTree α) :
    (p.map f).close (t.map f) = (p.close t).map f := by
  cases p <;> rfl

namespace Chain

theorem settle_map (power : Nat) (stack : List (Pending α)) (t : OpTree α) :
    settle power (stack.map (Pending.map f)) (t.map f) =
      ((settle power stack t).1.map (Pending.map f), (settle power stack t).2.map f) := by
  induction stack generalizing t with
  | nil => rfl
  | cons p stack ih =>
    have hpower : (p.map f).power = p.power := by cases p <;> rfl
    simp only [List.map_cons, settle, hpower, Pending.close_map, ih]
    split <;> rfl

theorem await_map (signs : List UnarySign) (stack : List (Pending α)) :
    await signs (stack.map (Pending.map f)) = (await signs stack).map (Pending.map f) := by
  induction signs generalizing stack with
  | nil => rfl
  | cons sign signs ih => exact ih (.unary sign :: stack)

theorem extend_map (state : List (Pending α) × OpTree α) (link : Link α) :
    extend (state.1.map (Pending.map f), state.2.map f) (link.map f) =
      ((extend state link).1.map (Pending.map f), (extend state link).2.map f) := by
  have hstack (stack : List (Pending α)) (left : OpTree α) :
      .binary (left.map f) link.sign :: stack.map (Pending.map f) =
        (Pending.binary left link.sign :: stack).map (Pending.map f) := rfl
  simp only [extend, Link.map, settle_map, hstack, await_map]
  rfl

/-- Grouping does not look at operands. -/
theorem toTree_map (chain : Chain α) : (chain.map f).toTree = chain.toTree.map f := by
  have hlinks (links : List (Link α)) (state : List (Pending α) × OpTree α) :
      (links.map (Link.map f)).foldl extend (state.1.map (Pending.map f), state.2.map f) =
        ((links.foldl extend state).1.map (Pending.map f), (links.foldl extend state).2.map f) := by
    induction links generalizing state with
    | nil => rfl
    | cons link links ih => rw [List.map_cons, List.foldl_cons, extend_map, ih, List.foldl_cons]
  have hclose (stack : List (Pending α)) (last : OpTree α) :
      (stack.map (Pending.map f)).foldl (fun t p => p.close t) (last.map f) =
        (stack.foldl (fun t p => p.close t) last).map f := by
    induction stack generalizing last with
    | nil => rfl
    | cons p stack ih => rw [List.map_cons, List.foldl_cons, Pending.close_map, ih, List.foldl_cons]
  have hstart := hlinks chain.links (await chain.unary [], .operand chain.head)
  rw [← await_map] at hstart
  simp only [toTree]
  rw [← hclose]
  exact congrArg (fun state : List (Pending β) × OpTree β =>
    state.1.foldl (fun t p => p.close t) state.2) hstart

end Chain

/-- The part, with what was built of it, is the item. -/
def Shows (part : Phrase × α) : Item α → Prop
  | .unary sign => part.1.rule.fixity? = some .before ∧ part.1.rule.unaryOp = sign.op ∧
      part.1.position = sign.position
  | .binary sign => part.1.rule.fixity? = some .between ∧ part.1.rule.binaryOp? = some sign.op ∧
      part.1.position = sign.position
  | .operand a => part.1.rule.fixity? = none ∧ part.2 = a

/-- Operators up to an operand, if what follows makes links, by induction on the operators. -/
theorem chainOf_eq {links : List (Link α)}
    (hlinks : ∀ parts, List.Forall₂ Shows parts (links.flatMap Link.items) →
      linksOf parts = .ok links)
    (p : Position) (signs unary : List UnarySign) (head : α) (parts : List (Phrase × α))
    (h : List.Forall₂ Shows parts
      (unary.map .unary ++ .operand head :: links.flatMap Link.items)) :
    chainOf p signs parts = .ok ⟨signs ++ unary, head, links⟩ := by
  induction unary generalizing signs parts with
  | nil =>
    cases h with
    | @cons part _ rest _ hpart hrest =>
      obtain ⟨hfixity, rfl⟩ := hpart
      rw [chainOf, hfixity]
      dsimp only
      rw [hlinks rest hrest, List.append_nil]
      rfl
  | cons sign unary ih =>
    cases h with
    | @cons part _ rest _ hpart hrest =>
      obtain ⟨hfixity, hop, hposition⟩ := hpart
      rw [chainOf, hfixity]
      dsimp only
      rw [hop, hposition, ih _ rest hrest, List.append_assoc]
      rfl

theorem linksOf_eq (links : List (Link α)) (parts : List (Phrase × α))
    (h : List.Forall₂ Shows parts (links.flatMap Link.items)) : linksOf parts = .ok links := by
  induction links generalizing parts with
  | nil =>
    cases h
    rfl
  | cons link links ih =>
    rw [List.flatMap_cons, Link.items, List.cons_append, List.append_assoc] at h
    cases h with
    | @cons part _ rest _ hpart hrest =>
      obtain ⟨hfixity, hop, hposition⟩ := hpart
      rw [linksOf, hfixity]
      dsimp only
      rw [hop]
      dsimp only
      rw [chainOf_eq ih part.1.position [] link.unary link.operand rest hrest, hposition]
      rfl

end

/-- The place of the first integer in an item that is out of range. -/
def Item.oversized? : Item Expr → Option Position
  | .operand e => e.oversized?
  | .unary _ | .binary _ => none

/-- A tree of operators has the integers of its items. -/
theorem OpTree.oversized?_toExpr (t : OpTree Expr) :
    t.toExpr.oversized? = t.items.findSome? Item.oversized? := by
  induction t with
  | operand e =>
    rw [items, List.findSome?_singleton]
    rfl
  | unary sign t ih => rw [toExpr, Expr.oversized?, ih, items, List.findSome?_cons]; rfl
  | binary l sign r ihl ihr =>
    rw [toExpr, Expr.oversized?, ihl, ihr, items, List.findSome?_append, List.findSome?_cons]
    rfl

/-- The expression over what was built of the operands is built, unless an operand has an integer
that is out of range. -/
theorem OpTree.build_map (bounded : Bool) (t : OpTree Expr) :
    (t.map fun e => checked bounded e.oversized? e).build =
      checked bounded t.toExpr.oversized? t.toExpr := by
  induction t with
  | operand e => rfl
  | unary sign t ih =>
    rw [map, build, ih]
    exact checked_map _ _ _ _
  | binary l sign r ihl ihr =>
    rw [map, build, ihl, toExpr, Expr.oversized?]
    refine checked_bind ?_
    rw [ihr]
    exact checked_map _ _ _ _

/-- The phrase is the item. -/
def IsItem (p : Phrase) : Item Expr → Prop
  | .unary sign => p.rule.fixity? = some .before ∧ p.rule.unaryOp = sign.op ∧
      p.position = sign.position ∧ p.parts = []
  | .binary sign => p.rule.fixity? = some .between ∧ p.rule.binaryOp? = some sign.op ∧
      p.position = sign.position ∧ p.parts = []
  | .operand e => IsOperand p e

theorem firstOversized?_of_sign {p : Phrase} {fixity : Fixity} (h : p.rule.fixity? = some fixity)
    (hparts : p.parts = []) : firstOversized? [p] = none := by
  have hrule : p.rule ≠ .int := by
    intro hint
    rw [hint] at h
    cases h
  rw [firstOversized?_of_ne _ hrule rfl, hparts, firstOversized?_nil]

theorem IsItem.found {p : Phrase} {item : Item Expr} (h : IsItem p item) :
    firstOversized? [p] = item.oversized? := by
  cases item with
  | unary sign => exact firstOversized?_of_sign h.1 h.2.2.2
  | binary sign => exact firstOversized?_of_sign h.1 h.2.2.2
  | operand e => exact Yields.found h.toYields

theorem IsItem.shows {p : Phrase} {item : Item Expr} (h : IsItem p item) (bounded : Bool) :
    Shows (p, p.toOperand bounded) (item.map fun e => checked bounded e.oversized? e) := by
  cases item with
  | unary sign => exact ⟨h.1, h.2.1, h.2.2.1⟩
  | binary sign => exact ⟨h.1, h.2.1, h.2.2.1⟩
  | operand e =>
    refine ⟨?_, Yields.built h.toYields bounded⟩
    rw [show p.rule = .operand from h.rule]
    rfl

theorem operandsOf_eq (bounded : Bool) (ps : List Phrase) :
    operandsOf bounded ps = ps.map fun p => (p, p.toOperand bounded) := by
  induction ps with
  | nil => rfl
  | cons p ps ih => rw [operandsOf, ih, List.map_cons]

/-- Phrases that are the items of a chain are an expression. -/
theorem isExpr_of_items {ps : List Phrase} {chain : Chain Expr}
    (h : List.Forall₂ IsItem ps chain.items) (position : Position) (lexeme : List Char) :
    IsExpr ⟨.expression, position, lexeme, ps⟩ chain.toTree.toExpr := by
  have hfound : firstOversized? ps = chain.toTree.toExpr.oversized? := by
    rw [OpTree.oversized?_toExpr, chain.items_toTree]
    generalize chain.items = items at h
    induction h with
    | nil => rfl
    | @cons _ item _ _ hp _ ih =>
      rw [firstOversized?_cons, hp.found, ih, List.findSome?_cons]
      cases item.oversized? <;> rfl
  have hshows (bounded : Bool) : List.Forall₂ Shows (operandsOf bounded ps)
      (chain.map fun e => checked bounded e.oversized? e).items := by
    rw [operandsOf_eq, Chain.items_map, List.forall₂_map_left_iff, List.forall₂_map_right_iff]
    exact h.imp fun _ _ hp => hp.shows bounded
  refine ⟨⟨fun bounded => ?_, ?_⟩, rfl⟩
  · have hchain := chainOf_eq (linksOf_eq _) position [] _ _ _ (hshows bounded)
    rw [Phrase.toExpr, groupParts, hchain, ← OpTree.build_map, ← Chain.toTree_map]
    rfl
  · rw [firstOversized?_of_ne .expression (by decide) rfl, hfound]

end TemplateEngine
