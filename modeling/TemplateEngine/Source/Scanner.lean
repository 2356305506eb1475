import TemplateEngine.Position

/-!
# Scanners

A scanner reads from a cursor and either fails or hands back a value and the cursor behind what
it read. Choices are ordered and settle on the first alternative that reads. Besides its result
an attempt reports its *reach*: the furthest place at which a rule began and failed. When a whole
source is refused, that is where the reader is sent to look.

Between the parts of a rule blanks are skipped by saying so (`blanks`); a scanner that does not
say so reads its parts without a gap.
-/

namespace TemplateEngine

/-- What is still to be read, and where it begins. -/
structure Cursor where
  rest : List Char
  offset : Nat
  position : Position

namespace Cursor

/-- The beginning of a source. -/
def start (source : List Char) : Cursor := ⟨source, 0, .start⟩

/-- The cursor behind `taken`, which is the beginning of the rest. -/
def drop (c : Cursor) (taken : List Char) : Cursor :=
  ⟨c.rest.drop taken.length, c.offset + taken.length, c.position.after taken⟩

end Cursor

/-- The outcome of a scanner at one place. -/
structure Attempt (α : Type) where
  /-- The value and the cursor behind it, or nothing. -/
  result : Option (α × Cursor)
  /-- The furthest offset at which a rule began and failed. -/
  reach : Nat

/-- Reads a value from a cursor. -/
def Scanner (α : Type) := Cursor → Attempt α

namespace Scanner

variable {α β : Type}

instance : Monad Scanner where
  pure a := fun c => ⟨some (a, c), 0⟩
  bind p f := fun c =>
    match (p c).result with
    | none => ⟨none, (p c).reach⟩
    | some (a, c') => ⟨(f a c').result, max (p c).reach (f a c').reach⟩

/-- What comes second reads where the first has stopped. -/
theorem result_bind (p : Scanner α) (f : α → Scanner β) (c : Cursor) :
    ((p >>= f) c).result = (p c).result.bind fun x => (f x.1 x.2).result := by
  cases hr : (p c).result <;> simp only [bind, hr, Option.bind]

/-- Reads nothing. -/
def fail : Scanner α := fun _ => ⟨none, 0⟩

/-- The first of two alternatives that reads. -/
def orElse (p q : Scanner α) : Scanner α := fun c =>
  match p c with
  | ⟨some r, reach⟩ => ⟨some r, reach⟩
  | ⟨none, reach⟩ => ⟨(q c).result, max reach (q c).reach⟩

/-- The first alternative that reads. -/
def firstOf : List (Scanner α) → Scanner α
  | [] => fail
  | p :: ps => orElse p (firstOf ps)

/-- A rule of the grammar: its failure is remembered at the place where it began. -/
def rule (p : Scanner α) : Scanner α := fun c =>
  match p c with
  | ⟨some r, reach⟩ => ⟨some r, reach⟩
  | ⟨none, reach⟩ => ⟨none, max reach c.offset⟩

/-- The value if it is there. -/
def optional (p : Scanner α) : Scanner (Option α) :=
  orElse (do let a ← p; pure (some a)) (pure none)

/-- The place of the cursor. -/
def here : Scanner Position := fun c => ⟨some (c.position, c), 0⟩

/-- The longest text of characters of one class. -/
def takeWhile (ok : Char → Bool) : Scanner (List Char) := fun c =>
  ⟨some (c.rest.takeWhile ok, c.drop (c.rest.takeWhile ok)), 0⟩

/-- A text as it stands. -/
def exactly (text : String) : Scanner Unit := fun c =>
  if text.toList.isPrefixOf c.rest then ⟨some ((), c.drop text.toList), 0⟩ else ⟨none, 0⟩

/-- Space, tab, carriage return and line feed are skipped between the parts of a tag. -/
def isGap (c : Char) : Bool := c = ' ' || c = '\t' || c = '\r' || c = '\n'

/-- Skips a gap, if there is one. -/
def blanks : Scanner Unit := do
  let _ ← takeWhile isGap

/-- Further values, each after a gap, at most as many as `room` has characters. -/
def further (p : Scanner α) : List Char → Scanner (List α)
  | [] => pure []
  | _ :: room => do
    match ← optional (do blanks; p) with
    | none => pure []
    | some a => do
      let rest ← further p room
      pure (a :: rest)

/-- As many values as there are, with gaps between. Every value takes a character, so there are
no more of them than characters left. -/
def many (p : Scanner α) : Scanner (List α) := fun c =>
  (do
    match ← optional p with
    | none => pure []
    | some a => do
      let rest ← further p c.rest
      pure (a :: rest) : Scanner (List α)) c

/-- One or more values with commas between. -/
def separated (p : Scanner α) : Scanner (List α) := do
  let first ← p
  blanks
  let rest ← many (do exactly ","; blanks; p)
  pure (first :: rest)

end Scanner

end TemplateEngine
