import TemplateEngine.Text.CaseTables

/-!
# Capitals and small letters

Texts change letter case character by character, where one character may become several. Only a
capital sigma looks around itself: at the end of a word it becomes the final small sigma.
-/

namespace TemplateEngine.Text

/-- A character in capitals. -/
def capital (c : Char) : List Char :=
  if c.toNat < 128 then [c.toUpper] else capitals.apply c

/-- A character in small letters, wherever it stands. -/
def small (c : Char) : List Char :=
  if c.toNat < 128 then [c.toLower] else smalls.apply c

/-- Reading on, the next character that is not passed over comes in letter cases. -/
def meetsCased (text : List Char) : Bool :=
  match text.dropWhile caseIgnorable.contains with
  | [] => false
  | c :: _ => cased.contains c

/-- Lower-cases what follows `seen`, which is given in reverse. -/
def lowerAfter (seen : List Char) : List Char → List Char
  | [] => []
  | c :: rest =>
    let now := if c = 'Σ' then [if meetsCased seen && !meetsCased rest then 'ς' else 'σ']
      else small c
    now ++ lowerAfter (c :: seen) rest

/-- A text in capitals. -/
def upper (text : List Char) : List Char := text.flatMap capital

/-- A text in small letters. -/
def lower (text : List Char) : List Char := lowerAfter [] text

end TemplateEngine.Text
