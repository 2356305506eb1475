import TemplateEngine.Proofs.Grammar.Phrases
import TemplateEngine.Source.Parse

/-!
# Building trees from phrases

What the phrases of a source are as tokens. Every phrase is taken apart by place: the part that
comes first is the target, the one behind it the value. Where a part is missing or is of another
rule than one that can stand there, the building stops with a fault of its own. The only fault that
a source is meant to have here is an integer that is out of range. As a fault hides those behind it,
phrases can also be built with integers of any size, where that fault is not there to hide another.
-/

namespace TemplateEngine

/-- Why nothing can be built from phrases. -/
inductive BuildFault
  /-- A part is missing. -/
  | incomplete
  /-- A phrase of the rule cannot stand here. -/
  | unexpected (rule : Rule)
  /-- Operators and operands do not take turns. -/
  | disordered
  /-- The rule of an operator has no operator. -/
  | unknownOperator
  /-- A text is no float. -/
  | invalidFloat
  /-- An integer literal that no integer value can hold. -/
  | literalRange
deriving DecidableEq

/-- A fault and its place. -/
structure BuildError where
  position : Position
  fault : BuildFault
deriving DecidableEq

/-- The next part, and those behind it. -/
def nextPart (p : Position) : List Phrase → Except BuildError (Phrase × List Phrase)
  | [] => .error ⟨p, .incomplete⟩
  | part :: rest => .ok (part, rest)

/-! ## Operators -/

/-- Where an operator stands. -/
inductive Fixity
  | before
  | between

/-- The rules of operators. -/
def Rule.fixity? : Rule → Option Fixity
  | .notSign | .negSign => some .before
  | .orSign | .andSign | .eqSign | .neSign | .ltSign | .gtSign | .leSign | .geSign | .concatSign
  | .addSign | .subSign | .mulSign | .divSign | .remSign => some .between
  | _ => none

/-- The operator before an operand. -/
def Rule.unaryOp : Rule → UnaryOp
  | .notSign => .not
  | _ => .neg

/-- The operator between operands. -/
def Rule.binaryOp? : Rule → Option BinaryOp
  | .orSign => some .or
  | .andSign => some .and
  | .eqSign => some .eq
  | .neSign => some .ne
  | .ltSign => some .lt
  | .gtSign => some .gt
  | .leSign => some .le
  | .geSign => some .ge
  | .concatSign => some .concat
  | .addSign => some .add
  | .subSign => some .sub
  | .mulSign => some .mul
  | .divSign => some .div
  | .remSign => some .rem
  | _ => none

section

variable {α : Type}

mutual

/-- Operators up to an operand, and what follows it. -/
def chainOf (p : Position) (signs : List UnarySign) :
    List (Phrase × α) → Except BuildError (Chain α)
  | [] => .error ⟨p, .disordered⟩
  | (part, a) :: rest =>
    match part.rule.fixity? with
    | some .before => chainOf p (signs ++ [⟨part.rule.unaryOp, part.position⟩]) rest
    | some .between => .error ⟨part.position, .disordered⟩
    | none => do
      let links ← linksOf rest
      pure ⟨signs, a, links⟩

/-- Operators between operands, with the operands behind them. -/
def linksOf : List (Phrase × α) → Except BuildError (List (Link α))
  | [] => .ok []
  | (part, _) :: rest =>
    match part.rule.fixity? with
    | some .between =>
      match part.rule.binaryOp? with
      | none => .error ⟨part.position, .unknownOperator⟩
      | some op => do
        let chain ← chainOf part.position [] rest
        pure (⟨⟨op, part.position⟩, chain.unary, chain.head⟩ :: chain.links)
    | _ => .error ⟨part.position, .disordered⟩

end

end

/-- The expression that a tree is over what was built of the operands. The first operand that was
not built counts. -/
def OpTree.build : OpTree (Except BuildError Expr) → Except BuildError Expr
  | .operand built => built
  | .unary sign t => do
    let operand ← t.build
    pure (.unary sign.op operand sign.position)
  | .binary l sign r => do
    let left ← l.build
    let right ← r.build
    pure (.binary sign.op left right sign.position)

/-- Groups operators and operands. -/
def groupParts (p : Position) (parts : List (Phrase × Except BuildError Expr)) :
    Except BuildError Expr := do
  let chain ← chainOf p [] parts
  chain.toTree.build

/-! ## Expressions -/

/-- The text that a quoted text writes. -/
def Phrase.toText (p : Phrase) : Except BuildError String := do
  let (body, _) ← nextPart p.position p.parts
  pure (String.ofList (unescape body.lexeme))

/-- The key of an entry, which is quoted or bare. -/
def Phrase.toKey (p : Phrase) : Except BuildError String :=
  match p.rule with
  | .string => p.toText
  | _ => .ok (String.ofList p.lexeme)

/-- The integer that digits write, if integers are bounded only one that is in range. -/
def integerOf? (bounded : Bool) (text : List Char) : Option Int :=
  if bounded then Integer.read? text else some (Integer.ofDigits text)

section

variable (bounded : Bool)

mutual

/-- An expression. -/
def Phrase.toExpr : Phrase → Except BuildError Expr
  | ⟨_, p, _, parts⟩ => groupParts p (operandsOf parts)

/-- What each part would be as an operand. -/
def operandsOf : List Phrase → List (Phrase × Except BuildError Expr)
  | [] => []
  | part :: rest => (part, part.toOperand) :: operandsOf rest

/-- An operand with what is reached from it. -/
def Phrase.toOperand : Phrase → Except BuildError Expr
  | ⟨_, p, _, []⟩ => .error ⟨p, .incomplete⟩
  | ⟨_, _, _, first :: accessors⟩ => do
    let e ← first.toPrimary
    accessOf e accessors

/-- What is reached from an expression. -/
def accessOf (e : Expr) : List Phrase → Except BuildError Expr
  | [] => .ok e
  | accessor :: rest => do
    let e ← accessor.toAccess e
    accessOf e rest

/-- What one accessor reaches from an expression. -/
def Phrase.toAccess (e : Expr) : Phrase → Except BuildError Expr
  | ⟨.member, p, _, []⟩ => .error ⟨p, .incomplete⟩
  | ⟨.member, p, _, name :: _⟩ => .ok (.member e (String.ofList name.lexeme) p)
  | ⟨.index, p, _, []⟩ => .error ⟨p, .incomplete⟩
  | ⟨.index, p, _, key :: _⟩ => do
    let key ← key.toExpr
    pure (.index e key p)
  | ⟨.arguments, p, _, parts⟩ => do
    let args ← exprsOf parts
    pure (.call e args p)
  | ⟨rule, p, _, _⟩ => .error ⟨p, .unexpected rule⟩

/-- A constant, a collection, a variable or a group. -/
def Phrase.toPrimary : Phrase → Except BuildError Expr
  | ⟨.int, p, text, _⟩ =>
    match integerOf? bounded text with
    | some n => .ok (.literal (.int n) p)
    | none => .error ⟨p, .literalRange⟩
  | ⟨.float, p, text, _⟩ =>
    match Reading.float? text with
    | some x => .ok (.literal (.float x) p)
    | none => .error ⟨p, .invalidFloat⟩
  | ⟨.string, p, text, parts⟩ => do
    let s ← Phrase.toText ⟨.string, p, text, parts⟩
    pure (.literal (.text s) p)
  | ⟨.boolean, p, text, _⟩ => .ok (.literal (.bool (String.ofList text = "true")) p)
  | ⟨.null, p, _, _⟩ => .ok (.literal .null p)
  | ⟨.identifier, p, text, _⟩ => .ok (.var ⟨String.ofList text, .global, p⟩)
  | ⟨.list, p, _, parts⟩ => do
    let items ← exprsOf parts
    pure (.list items p)
  | ⟨.map, p, _, parts⟩ => do
    let entries ← entriesOf parts
    pure (.map entries p)
  | ⟨.expression, p, _, parts⟩ => groupParts p (operandsOf parts)
  | ⟨rule, p, _, _⟩ => .error ⟨p, .unexpected rule⟩

/-- Expressions one after the other. -/
def exprsOf : List Phrase → Except BuildError (List Expr)
  | [] => .ok []
  | part :: rest => do
    let e ← part.toExpr
    let es ← exprsOf rest
    pure (e :: es)

/-- A key and a value. -/
def Phrase.toEntry : Phrase → Except BuildError (String × Expr)
  | ⟨_, p, _, []⟩ => .error ⟨p, .incomplete⟩
  | ⟨_, p, _, [key]⟩ => do
    let _ ← key.toKey
    .error ⟨p, .incomplete⟩
  | ⟨_, _, _, key :: value :: _⟩ => do
    let key ← key.toKey
    let value ← value.toExpr
    pure (key, value)

/-- Entries one after the other. -/
def entriesOf : List Phrase → Except BuildError (List (String × Expr))
  | [] => .ok []
  | part :: rest => do
    let entry ← part.toEntry
    let entries ← entriesOf rest
    pure (entry :: entries)

end

/-! ## Tags -/

/-- A name bound in a scope. -/
def Phrase.bound (scope : ScopeKind) (p : Phrase) : VarRef :=
  ⟨String.ofList p.lexeme, scope, p.position⟩

/-- An expression that may be left out. -/
def optionalExpr : List Phrase → Except BuildError (Option Expr)
  | [] => .ok none
  | part :: _ => do
    let e ← part.toExpr bounded
    pure (some e)

/-- The parts of a tag but for its keywords, which have done their part. -/
def Phrase.operands (tag : Phrase) : List Phrase :=
  tag.parts.filter fun part => part.rule ≠ .keyword

/-- A tag of one expression. -/
def exprTagOf (make : Expr → Tag) (p : Position) (parts : List Phrase) : Except BuildError Tag := do
  let (part, _) ← nextPart p parts
  let e ← part.toExpr bounded
  pure (make e)

/-- The tag of a rule with its operands. -/
def tagOf (rule : Rule) (p : Position) (parts : List Phrase) : Except BuildError Tag :=
  match rule with
  | .setTag => do
    let (target, parts) ← nextPart p parts
    let target ← target.toOperand bounded
    let (value, _) ← nextPart p parts
    let value ← value.toExpr bounded
    pure (.set target value)
  | .globalTag => do
    let (name, parts) ← nextPart p parts
    let (value, _) ← nextPart p parts
    let value ← value.toExpr bounded
    pure (.setGlobal (name.bound .global) value)
  | .ifTag => exprTagOf bounded .if p parts
  | .elifTag => exprTagOf bounded .elif p parts
  | .elseTag => .ok .else
  | .endifTag => .ok .endif
  | .forTag => do
    let (name, parts) ← nextPart p parts
    let (items, _) ← nextPart p parts
    let items ← items.toExpr bounded
    pure (.for (name.bound .loop) items)
  | .endforTag => .ok .endfor
  | .whileTag => exprTagOf bounded .while p parts
  | .endwhileTag => .ok .endwhile
  | .breakTag => .ok .break
  | .continueTag => .ok .continue
  | .functionTag => do
    let (name, params) ← nextPart p parts
    pure (.function (name.bound .global) (params.map fun param => String.ofList param.lexeme))
  | .endfunctionTag => .ok .endfunction
  | .returnTag => do
    let value ← optionalExpr bounded parts
    pure (.return value)
  | .captureTag => do
    let (target, _) ← nextPart p parts
    let target ← target.toOperand bounded
    pure (.capture target)
  | .endcaptureTag => .ok .endcapture
  | .includeTag => do
    let (path, parts) ← nextPart p parts
    let path ← path.toExpr bounded
    let model ← optionalExpr bounded parts
    pure (.include path model)
  | rule => .error ⟨p, .unexpected rule⟩

/-- A statement tag. -/
def Phrase.toTag (tag : Phrase) : Except BuildError Tag :=
  tagOf bounded tag.rule tag.position tag.operands

/-! ## Tokens -/

/-- The tokens of phrases. The flag says that a statement tag stands right before. -/
def tokensOfPhrases (options : ParserOptions) (afterTag : Bool) :
    List Phrase → Except BuildError (List Token)
  | [] => .ok []
  | p :: rest =>
    match p.rule with
    | .text => do
      let text := if afterTag && options.trimBlocks then dropLineBreak p.lexeme else p.lexeme
      let tokens ← tokensOfPhrases options false rest
      pure (if text.isEmpty then tokens else .text (String.ofList text) :: tokens)
    | .comment => tokensOfPhrases options false rest
    | .outputTag => do
      let (value, _) ← nextPart p.position p.parts
      let value ← value.toExpr bounded
      let tokens ← tokensOfPhrases options false rest
      pure (.output value :: tokens)
    | .statementTag => do
      let (tag, _) ← nextPart p.position p.parts
      let tag ← tag.toTag bounded
      let tokens ← tokensOfPhrases options true rest
      pure (.tag tag p.position :: tokens)
    | _ => tokensOfPhrases options afterTag rest

/-- The tokens of the tree of a source. -/
def Phrase.tokens (options : ParserOptions) (tree : Phrase) : Except BuildError (List Token) :=
  tokensOfPhrases bounded options false tree.parts

end

end TemplateEngine
