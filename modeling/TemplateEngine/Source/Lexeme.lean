import TemplateEngine.Number.Reading
import TemplateEngine.Source.Scanner
import TemplateEngine.Syntax.Expr

/-!
# Words, numbers and quoted text

The smallest parts of a tag. A word is the longest run of letters, digits and underscores of
ASCII, so a word operator ends where its word ends. A quoted text ends at the first quote of its
kind that no backslash precedes.
-/

namespace TemplateEngine

open Scanner

/-! ## Words -/

/-- A character of a word. -/
def isWordChar (c : Char) : Bool := c.isAlphanum || c = '_'

/-- A character that can begin a name. -/
def isNameStart (c : Char) : Bool := c.isAlpha || c = '_'

/-- The words that begin, divide and end statement tags. -/
def keywords : List String :=
  ["endfunction", "endcapture", "endwhile", "endfor", "endif", "function", "continue", "capture",
    "include", "global", "return", "break", "while", "with", "elif", "else", "set", "for", "if",
    "in"]

/-- The words that are not names. -/
def reservedWords : List String :=
  ["and", "or", "not", "in", "with", "true", "false", "null"]

/-- The word at the cursor, if it is wanted. -/
def wordThat (wanted : String → Bool) : Scanner String := fun c =>
  let word := c.rest.takeWhile isWordChar
  if wanted (String.ofList word) then ⟨some (String.ofList word, c.drop word), 0⟩ else ⟨none, 0⟩

/-- A word can name a variable. -/
def isName (word : String) : Bool :=
  (word.toList.head?.any isNameStart) && !reservedWords.contains word

/-- The name of a variable or a member. -/
def identifier : Scanner String := rule (wordThat isName)

/-- A keyword that begins with `stem`; what does not begin so is not tried as a keyword. -/
def keyword (stem : String) : Scanner Unit := fun c =>
  if stem.toList.isPrefixOf c.rest then
    (do let _ ← rule (wordThat keywords.contains)) c
  else ⟨none, 0⟩

/-! ## Numbers -/

/-- One or more digits. -/
def digits : Scanner (List Char) := do
  let ds ← takeWhile Char.isDigit
  if ds.isEmpty then fail else pure ds

/-- Digits, a point and digits. -/
def floatLiteral : Scanner Literal := rule do
  let whole ← digits
  exactly "."
  let fraction ← digits
  pure (.float (Reading.nearest (Integer.ofDigits (whole ++ fraction)) (-(fraction.length : Int))))

/-- Digits alone; whether the number can be held is asked later. -/
def intLiteral : Scanner Literal := rule do
  let ds ← digits
  pure (.int (Integer.ofDigits ds))

/-! ## Quoted text -/

/-- What stands before the closing quote: a backslash takes the next character with it. -/
def quotedBody (quote : Char) : List Char → List Char
  | [] => []
  | '\\' :: c :: rest => '\\' :: c :: quotedBody quote rest
  | c :: rest => if c = quote || c = '\\' then [] else c :: quotedBody quote rest

/-- A backslash makes a control of `n`, `t`, `r` and `0` and keeps every other character. -/
def unescape : List Char → List Char
  | [] => []
  | '\\' :: c :: rest =>
    (if c = 'n' then '\n' else if c = 't' then '\t' else if c = 'r' then '\r'
      else if c = '0' then '\x00' else c) :: unescape rest
  | c :: rest => c :: unescape rest

/-- A text between two quotes of one kind. -/
def quotedBy (quote : Char) : Scanner String := fun c =>
  match c.rest with
  | [] => ⟨none, 0⟩
  | q :: rest =>
    if q = quote then
      let body := quotedBody quote rest
      if (rest.drop body.length).head? = some quote then
        ⟨some (String.ofList (unescape body), c.drop (q :: body ++ [quote])), 0⟩
      else ⟨none, 0⟩
    else ⟨none, 0⟩

/-- A text between double or single quotes. -/
def stringLiteral : Scanner String := rule (orElse (quotedBy '"') (quotedBy '\''))

/-- A constant. -/
def literal : Scanner Literal := firstOf [
  floatLiteral,
  intLiteral,
  do let s ← stringLiteral; pure (.text s),
  do let w ← rule (wordThat fun w => w = "true" || w = "false"); pure (.bool (w = "true")),
  do let _ ← rule (wordThat (· = "null")); pure .null]

end TemplateEngine
