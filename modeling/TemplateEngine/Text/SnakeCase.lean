import TemplateEngine.Text.Blank
import TemplateEngine.Text.LetterCase
import TemplateEngine.Text.Pattern

/-!
# Member names in snake case

Names in camel case and with hyphens become words joined by underscores. Three passes put the
underscores in: before the last capital of a run that a small letter follows, between a small
letter or digit and a capital, and in place of a run of hyphens and blanks. Then the name is put
into small letters.
-/

namespace TemplateEngine.Text

/-- A capital letter of ASCII. -/
def isCapital (c : Char) : Bool := 'A' ≤ c && c ≤ 'Z'

/-- A small letter of ASCII. -/
def isSmall (c : Char) : Bool := 'a' ≤ c && c ≤ 'z'

/-- A small letter or a digit of ASCII. -/
def isSmallOrDigit (c : Char) : Bool := isSmall c || c.isDigit

/-- A hyphen or a blank. -/
def isSeparator (c : Char) : Bool := c = '-' || isBlank c

/-- Capitals, and the capital behind them that begins a word. -/
def acronym : Pattern :=
  .seq (.group (.many isCapital)) (.group (.seq (.one isCapital) (.one isSmall)))

/-- The end of a word and the capital that begins the next one. -/
def wordBoundary : Pattern := .seq (.group (.one isSmallOrDigit)) (.group (.one isCapital))

/-- A run of hyphens and blanks. -/
def separators : Pattern := .many isSeparator

/-- The two groups of a match with an underscore between them. -/
def parted : List Replacement := [.group 1, .text "_", .group 2]

/-- A name in snake case. -/
def snakeCase (name : String) : String :=
  let words := wordBoundary.replaceAll parted (acronym.replaceAll parted name.toList)
  String.ofList (lower (separators.replaceAll [.text "_"] words))

end TemplateEngine.Text
