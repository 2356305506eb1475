import TemplateEngine.Proofs.Spelling.Cursors

/-!
# The grammar and its phrases

The grammar of sources as data. Every named rule has a pattern (`Rule.body`), and where a rule
matches it leaves a phrase: the rule, the place and the text that it matched, and the phrases in
it. `Matches` says what a pattern comes to at a cursor: alternatives are tried in order, and a
repetition takes as much as it can. The parts of a pattern have gaps between them or touch,
whichever the rule says. A pattern comes to one thing only at a cursor (`Matches.unique`), so a
source has one tree of phrases at most (`Derives`).
-/

namespace TemplateEngine

/-! ## Rules and patterns -/

/-- The named rules of the grammar. -/
inductive Rule
  | template | text | comment | outputTag | statementTag | endOfSource
  | setTag | globalTag | ifTag | elifTag | elseTag | endifTag | forTag | endforTag | whileTag
  | endwhileTag | breakTag | continueTag | functionTag | endfunctionTag | returnTag | captureTag
  | endcaptureTag | includeTag
  | keyword
  | expression
  | notSign | negSign
  | orSign | andSign | eqSign | neSign | leSign | geSign | ltSign | gtSign | concatSign | addSign
  | subSign | mulSign | divSign | remSign
  | operand | member | index | arguments
  | list | map | mapEntry
  | float | int | boolean | null
  | string | doubleChars | singleChars
  | identifier | reserved
deriving DecidableEq

/-- A pattern of the grammar. -/
inductive Peg
  /-- The text as it stands. -/
  | text (s : String)
  /-- One character of a class. -/
  | char (ok : Char → Bool)
  /-- The beginning of the source. -/
  | atStart
  /-- The end of the source. -/
  | atEnd
  | rule (r : Rule)
  /-- One pattern and then the other. -/
  | seq (a b : Peg)
  /-- The second pattern only where the first one fails. -/
  | choice (a b : Peg)
  | optional (a : Peg)
  /-- The pattern as often as it matches. -/
  | many (a : Peg)
  /-- The pattern as often as it still matches behind what came before. -/
  | further (a : Peg)
  /-- The pattern matches here, but nothing is taken. -/
  | ahead (a : Peg)
  /-- The pattern does not match here. -/
  | notAhead (a : Peg)

/-- What happens between the parts of a pattern and to the phrases in it. -/
inductive Mode
  /-- Gaps between the parts are skipped. -/
  | spaced
  /-- The parts touch. -/
  | close
  /-- The parts touch, and the rules in the pattern leave no phrases. -/
  | atomic
deriving DecidableEq

/-- The mode that a rule sets for its pattern; a plain rule keeps the one that it is used in. -/
inductive RuleKind
  | plain
  | spaced
  | close
  | atomic

namespace Peg

/-- Patterns one behind the other. -/
def row : List Peg → Peg
  | [] => .text ""
  | [a] => a
  | a :: rest => .seq a (row rest)

/-- The first pattern that matches. -/
def firstOf : List Peg → Peg
  | [] => .char fun _ => false
  | [a] => a
  | a :: rest => .choice a (firstOf rest)

/-- Any character. -/
def any : Peg := .char fun _ => true

/-- The pattern at least once. -/
def oneOrMore (a : Peg) : Peg := .seq a (.many a)

/-- One of the words, which does not go on behind it. -/
def word (words : List String) : Peg :=
  .seq (firstOf (words.map .text)) (.notAhead (.char isWordChar))

/-- A keyword where the text begins with the stem. -/
def keyword (stem : String) : Peg := .seq (.ahead (.text stem)) (.rule .keyword)

/-- One or more with commas between. -/
def separated (a : Peg) : Peg := .seq a (.many (.seq (.text ",") a))

/-- One or more with commas between and perhaps one behind, or nothing. -/
def listed (a : Peg) : Peg := .optional (.seq (separated a) (.optional (.text ",")))

/-- What stands between quotes of the kind. -/
def quoted (quote : String) : Peg :=
  .many (.choice (.seq (.text "\\") any)
    (.seq (.notAhead (.choice (.text quote) (.text "\\"))) any))

/-! ### Rules without a name -/

def token : Peg :=
  firstOf [.rule .comment, .rule .outputTag, .rule .statementTag, .rule .text]

def tag : Peg := firstOf [
  .rule .setTag, .rule .globalTag, .rule .ifTag, .rule .elifTag, .rule .elseTag, .rule .endifTag,
  .rule .forTag, .rule .endforTag, .rule .whileTag, .rule .endwhileTag, .rule .breakTag,
  .rule .continueTag, .rule .functionTag, .rule .endfunctionTag, .rule .returnTag,
  .rule .captureTag, .rule .endcaptureTag, .rule .includeTag]

def unarySign : Peg := firstOf [.rule .notSign, .rule .negSign]

def binarySign : Peg := firstOf [
  .rule .orSign, .rule .andSign, .rule .eqSign, .rule .neSign, .rule .leSign, .rule .geSign,
  .rule .ltSign, .rule .gtSign, .rule .concatSign, .rule .addSign, .rule .subSign, .rule .mulSign,
  .rule .divSign, .rule .remSign]

def link : Peg := row [binarySign, .many unarySign, .rule .operand]

def accessor : Peg := firstOf [.rule .member, .rule .index, .rule .arguments]

def literal : Peg :=
  firstOf [.rule .float, .rule .int, .rule .string, .rule .boolean, .rule .null]

def grouped : Peg := row [.text "(", .rule .expression, .text ")"]

def primary : Peg := firstOf [literal, .rule .list, .rule .map, .rule .identifier, grouped]

end Peg

/-- The pattern of a rule. -/
def Rule.body : Rule → Peg
  | .template => .row [.atStart, .many .token, .rule .endOfSource]
  | .text => .oneOrMore (.seq
      (.notAhead (.firstOf [.text "\x7b\x7b", .text "\x7b%", .text "\x7b#"])) .any)
  | .comment => .row [.text "\x7b#", .many (.seq (.notAhead (.text "#\x7d")) .any), .text "#\x7d"]
  | .outputTag => .row [.text "\x7b\x7b", .rule .expression, .text "\x7d\x7d"]
  | .statementTag => .row [.text "\x7b%", .tag, .text "%\x7d"]
  | .endOfSource => .atEnd
  | .setTag => .row [.keyword "set", .rule .operand, .text "=", .rule .expression]
  | .globalTag => .row [.keyword "global", .rule .identifier, .text "=", .rule .expression]
  | .ifTag => .row [.keyword "if", .rule .expression]
  | .elifTag => .row [.keyword "elif", .rule .expression]
  | .elseTag => .keyword "else"
  | .endifTag => .keyword "endif"
  | .forTag => .row [.keyword "for", .rule .identifier, .keyword "in", .rule .expression]
  | .endforTag => .keyword "endfor"
  | .whileTag => .row [.keyword "while", .rule .expression]
  | .endwhileTag => .keyword "endwhile"
  | .breakTag => .keyword "break"
  | .continueTag => .keyword "continue"
  | .functionTag => .row [.keyword "function", .rule .identifier, .text "(",
      .optional (.separated (.rule .identifier)), .text ")"]
  | .endfunctionTag => .keyword "endfunction"
  | .returnTag => .row [.keyword "return", .optional (.rule .expression)]
  | .captureTag => .row [.keyword "capture", .rule .operand]
  | .endcaptureTag => .keyword "endcapture"
  | .includeTag => .row [.keyword "include", .rule .expression,
      .optional (.row [.keyword "with", .rule .expression])]
  | .keyword => .word keywords
  | .expression => .row [.many .unarySign, .rule .operand, .many .link]
  | .notSign => .word ["not"]
  | .negSign => .text "-"
  | .orSign => .word ["or"]
  | .andSign => .word ["and"]
  | .eqSign => .text "=="
  | .neSign => .text "!="
  | .leSign => .text "<="
  | .geSign => .text ">="
  | .ltSign => .text "<"
  | .gtSign => .text ">"
  | .concatSign => .text "~"
  | .addSign => .text "+"
  | .subSign => .text "-"
  | .mulSign => .text "*"
  | .divSign => .text "/"
  | .remSign => .seq (.text "%") (.notAhead (.text "\x7d"))
  | .operand => .row [.primary, .many .accessor]
  | .member => .row [.text ".", .rule .identifier]
  | .index => .row [.text "[", .rule .expression, .text "]"]
  | .arguments => .row [.text "(", .optional (.separated (.rule .expression)), .text ")"]
  | .list => .row [.text "[", .listed (.rule .expression), .text "]"]
  | .map => .row [.text "\x7b", .listed (.rule .mapEntry), .text "\x7d"]
  | .mapEntry =>
    .row [.choice (.rule .identifier) (.rule .string), .text ":", .rule .expression]
  | .float => .row [.oneOrMore (.char Char.isDigit), .text ".", .oneOrMore (.char Char.isDigit)]
  | .int => .oneOrMore (.char Char.isDigit)
  | .boolean => .word ["true", "false"]
  | .null => .word ["null"]
  | .string => .choice (.row [.text "\"", .rule .doubleChars, .text "\""])
      (.row [.text "'", .rule .singleChars, .text "'"])
  | .doubleChars => .quoted "\""
  | .singleChars => .quoted "'"
  | .identifier => .row [.notAhead (.rule .reserved), .char isNameStart, .many (.char isWordChar)]
  | .reserved => .word reservedWords

/-- The mode of a rule. -/
def Rule.kind : Rule → RuleKind
  | .template | .string => .close
  | .outputTag | .statementTag => .spaced
  | .text | .comment | .keyword | .notSign | .orSign | .andSign | .remSign | .float | .int
  | .boolean | .null | .doubleChars | .singleChars | .identifier | .reserved => .atomic
  | _ => .plain

/-- The mode of the pattern of a rule that is used in a mode. -/
def RuleKind.inside (m : Mode) : RuleKind → Mode
  | .plain => m
  | .spaced => .spaced
  | .close => .close
  | .atomic => .atomic

/-- A rule that is used in a mode leaves a phrase. -/
def RuleKind.isKept (m : Mode) : RuleKind → Bool
  | .plain | .atomic => m ≠ .atomic
  | .spaced | .close => true

/-! ## Matching -/

/-- What a rule has matched: the text, where it begins, and the phrases in it. -/
structure Phrase where
  rule : Rule
  position : Position
  lexeme : List Char
  parts : List Phrase

/-- The phrases that a rule leaves between two cursors. -/
def Rule.phrases (r : Rule) (m : Mode) (c d : Cursor) (inner : List Phrase) : List Phrase :=
  if r.kind.isKept m then [⟨r, c.position, c.rest.take (d.offset - c.offset), inner⟩] else inner

/-- The cursor behind the gap, where gaps are skipped. -/
def Mode.skip : Mode → Cursor → Cursor
  | .spaced, c => c.drop (c.rest.takeWhile Scanner.isGap)
  | .close, c | .atomic, c => c

/-- What a pattern comes to at a cursor: the phrases and the cursor behind them, or nothing. -/
inductive Matches : Mode → Peg → Cursor → Option (List Phrase × Cursor) → Prop
  | text {m : Mode} {s : String} {c : Cursor} : s.toList <+: c.rest →
    Matches m (.text s) c (some ([], c.drop s.toList))
  | noText {m : Mode} {s : String} {c : Cursor} : ¬s.toList <+: c.rest →
    Matches m (.text s) c none
  | char {m : Mode} {ok : Char → Bool} {c : Cursor} {x : Char} : x ∈ c.rest.head? → ok x = true →
    Matches m (.char ok) c (some ([], c.drop [x]))
  | noChar {m : Mode} {ok : Char → Bool} {c : Cursor} : (∀ x ∈ c.rest.head?, ok x = false) →
    Matches m (.char ok) c none
  | atStart {m : Mode} {c : Cursor} : c.offset = 0 → Matches m .atStart c (some ([], c))
  | notAtStart {m : Mode} {c : Cursor} : c.offset ≠ 0 → Matches m .atStart c none
  | atEnd {m : Mode} {c : Cursor} : c.rest = [] → Matches m .atEnd c (some ([], c))
  | notAtEnd {m : Mode} {c : Cursor} : c.rest ≠ [] → Matches m .atEnd c none
  | rule {m : Mode} {r : Rule} {c d : Cursor} {ps : List Phrase} :
    Matches (r.kind.inside m) r.body c (some (ps, d)) →
    Matches m (.rule r) c (some (r.phrases m c d ps, d))
  | noRule {m : Mode} {r : Rule} {c : Cursor} : Matches (r.kind.inside m) r.body c none →
    Matches m (.rule r) c none
  | seq {m : Mode} {a b : Peg} {c d e : Cursor} {ps qs : List Phrase} :
    Matches m a c (some (ps, d)) → Matches m b (m.skip d) (some (qs, e)) →
    Matches m (.seq a b) c (some (ps ++ qs, e))
  | noFirst {m : Mode} {a b : Peg} {c : Cursor} : Matches m a c none → Matches m (.seq a b) c none
  | noSecond {m : Mode} {a b : Peg} {c d : Cursor} {ps : List Phrase} :
    Matches m a c (some (ps, d)) → Matches m b (m.skip d) none → Matches m (.seq a b) c none
  | first {m : Mode} {a b : Peg} {c d : Cursor} {ps : List Phrase} :
    Matches m a c (some (ps, d)) → Matches m (.choice a b) c (some (ps, d))
  | second {m : Mode} {a b : Peg} {c : Cursor} {r : Option (List Phrase × Cursor)} :
    Matches m a c none → Matches m b c r → Matches m (.choice a b) c r
  | given {m : Mode} {a : Peg} {c d : Cursor} {ps : List Phrase} :
    Matches m a c (some (ps, d)) → Matches m (.optional a) c (some (ps, d))
  | leftOut {m : Mode} {a : Peg} {c : Cursor} : Matches m a c none →
    Matches m (.optional a) c (some ([], c))
  | many {m : Mode} {a : Peg} {c d e : Cursor} {ps qs : List Phrase} :
    Matches m a c (some (ps, d)) → Matches m (.further a) d (some (qs, e)) →
    Matches m (.many a) c (some (ps ++ qs, e))
  | manyEnds {m : Mode} {a : Peg} {c : Cursor} : Matches m a c none →
    Matches m (.many a) c (some ([], c))
  | further {m : Mode} {a : Peg} {c d e : Cursor} {ps qs : List Phrase} :
    Matches m a (m.skip c) (some (ps, d)) → Matches m (.further a) d (some (qs, e)) →
    Matches m (.further a) c (some (ps ++ qs, e))
  | furtherEnds {m : Mode} {a : Peg} {c : Cursor} : Matches m a (m.skip c) none →
    Matches m (.further a) c (some ([], c))
  | ahead {m : Mode} {a : Peg} {c d : Cursor} {ps : List Phrase} :
    Matches m a c (some (ps, d)) → Matches m (.ahead a) c (some ([], c))
  | noneAhead {m : Mode} {a : Peg} {c : Cursor} : Matches m a c none → Matches m (.ahead a) c none
  | notAhead {m : Mode} {a : Peg} {c : Cursor} : Matches m a c none →
    Matches m (.notAhead a) c (some ([], c))
  | someAhead {m : Mode} {a : Peg} {c d : Cursor} {ps : List Phrase} :
    Matches m a c (some (ps, d)) → Matches m (.notAhead a) c none

/-- At a cursor a pattern comes to one thing only, by induction on how it comes to it. -/
theorem Matches.unique {m : Mode} {a : Peg} {c : Cursor} {r s : Option (List Phrase × Cursor)}
    (h : Matches m a c r) (k : Matches m a c s) : r = s := by
  induction h generalizing s with
  | text h => cases k with
    | text => rfl
    | noText k => exact absurd h k
  | noText h => cases k with
    | text k => exact absurd k h
    | noText => rfl
  | char hx hok => cases k with
    | char hy => rw [Option.mem_unique hx hy]
    | noChar k => rw [k _ hx] at hok; cases hok
  | noChar h => cases k with
    | char hx hok => rw [h _ hx] at hok; cases hok
    | noChar => rfl
  | atStart h => cases k with
    | atStart => rfl
    | notAtStart k => exact absurd h k
  | notAtStart h => cases k with
    | atStart k => exact absurd k h
    | notAtStart => rfl
  | atEnd h => cases k with
    | atEnd => rfl
    | notAtEnd k => exact absurd h k
  | notAtEnd h => cases k with
    | atEnd k => exact absurd k h
    | notAtEnd => rfl
  | rule _ ih => cases k with
    | rule k => cases ih k; rfl
    | noRule k => cases ih k
  | noRule _ ih => cases k with
    | rule k => cases ih k
    | noRule => rfl
  | seq _ _ iha ihb => cases k with
    | seq ka kb => cases iha ka; cases ihb kb; rfl
    | noFirst ka => cases iha ka
    | noSecond ka kb => cases iha ka; cases ihb kb
  | noFirst _ ih => cases k with
    | seq ka => cases ih ka
    | noFirst => rfl
    | noSecond => rfl
  | noSecond _ _ iha ihb => cases k with
    | seq ka kb => cases iha ka; cases ihb kb
    | noFirst => rfl
    | noSecond => rfl
  | first _ ih => cases k with
    | first k => exact ih k
    | second ka => cases ih ka
  | second _ _ iha ihb => cases k with
    | first k => cases iha k
    | second _ kb => exact ihb kb
  | given _ ih => cases k with
    | given k => exact ih k
    | leftOut k => cases ih k
  | leftOut _ ih => cases k with
    | given k => cases ih k
    | leftOut => rfl
  | many _ _ iha ihb => cases k with
    | many ka kb => cases iha ka; cases ihb kb; rfl
    | manyEnds k => cases iha k
  | manyEnds _ ih => cases k with
    | many k => cases ih k
    | manyEnds => rfl
  | further _ _ iha ihb => cases k with
    | further ka kb => cases iha ka; cases ihb kb; rfl
    | furtherEnds k => cases iha k
  | furtherEnds _ ih => cases k with
    | further k => cases ih k
    | furtherEnds => rfl
  | ahead _ ih => cases k with
    | ahead => rfl
    | noneAhead k => cases ih k
  | noneAhead _ ih => cases k with
    | ahead k => cases ih k
    | noneAhead => rfl
  | notAhead _ ih => cases k with
    | notAhead => rfl
    | someAhead k => cases ih k
  | someAhead _ ih => cases k with
    | notAhead k => cases ih k
    | someAhead => rfl

/-- The phrase is the tree of the source. -/
def Derives (source : String) (tree : Phrase) : Prop :=
  ∃ d, Matches .spaced (.rule .template) (.start source.toList) (some ([tree], d))

end TemplateEngine
