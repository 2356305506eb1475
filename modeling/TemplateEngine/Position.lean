/-!
# Places in template source

A place is a line and a column, both counted from one in characters. A line ends at its line
feed, so a carriage return before it only takes a column. The place that stands for "nowhere in
particular" is `0:0`.
-/

namespace TemplateEngine

/-- A line and a column, counted from one. -/
structure Position where
  line : Nat
  column : Nat
deriving DecidableEq

namespace Position

/-- The place of what was not read from source. -/
def unknown : Position := ⟨0, 0⟩

instance : Inhabited Position := ⟨unknown⟩

/-- The place of the first character. -/
def start : Position := ⟨1, 1⟩

/-- The place after one more character. -/
def step (p : Position) (c : Char) : Position :=
  if c = '\n' then ⟨p.line + 1, 1⟩ else ⟨p.line, p.column + 1⟩

/-- The place after a text that begins at `p`. -/
def after (p : Position) (text : List Char) : Position := text.foldl step p

/-- Line and column with a colon between. -/
def display (p : Position) : String := s!"{p.line}:{p.column}"

@[simp] theorem after_nil (p : Position) : p.after [] = p := rfl

@[simp] theorem after_cons (p : Position) (c : Char) (cs : List Char) :
    p.after (c :: cs) = (p.step c).after cs := rfl

theorem after_append (p : Position) (a b : List Char) :
    p.after (a ++ b) = (p.after a).after b := List.foldl_append

end Position

end TemplateEngine
