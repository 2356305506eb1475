import TemplateEngine.Text.Printable

/-!
# Quoted text

A text between double quotes in which nothing is hidden: the quote, the backslash and the common
controls are written with a backslash, and what has no mark of its own by its number.
-/

namespace TemplateEngine.Text

/-- A character inside quotes. -/
def escape (c : Char) : List Char :=
  if c = '"' then ['\\', '"']
  else if c = '\\' then ['\\', '\\']
  else if c = '\n' then ['\\', 'n']
  else if c = '\r' then ['\\', 'r']
  else if c = '\t' then ['\\', 't']
  else if c.toNat = 0 then ['\\', '0']
  else if 32 ≤ c.toNat && c.toNat < 127 then [c]
  else if extending.contains c || unprintable.contains c then
    ['\\', 'u', '\x7b'] ++ Nat.toDigits 16 c.toNat ++ ['\x7d']
  else [c]

/-- A text between double quotes. -/
def quoted (text : String) : String :=
  String.ofList ('"' :: text.toList.flatMap escape ++ ['"'])

end TemplateEngine.Text
