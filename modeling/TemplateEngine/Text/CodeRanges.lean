/-!
# Tables of characters

A property of characters is a list of ranges of their numbers, written in hexadecimal:
`300-36f 483-489`. A case mapping is written the same way, with what the first character of a
range becomes behind an equals sign (`e0-f6=c0`); the later ones of the range become as many
further. `/2` says that only every second character of a range is meant.
-/

namespace TemplateEngine.Text

/-- The value of a hexadecimal digit, 0 for any other character. -/
def hexValue (c : Char) : Nat :=
  if c.isDigit then c.toNat - 48
  else if 'a' ≤ c && c ≤ 'f' then c.toNat - 87
  else 0

/-- The number written in hexadecimal. -/
def ofHex (ds : List Char) : Nat := ds.foldl (fun n d => 16 * n + hexValue d) 0

/-- Splits at every character of a class; the separators are dropped, and so are empty parts. -/
def splitParts (separates : Char → Bool) (text : List Char) : List (List Char) :=
  let (part, parts) := text.foldr
    (fun c (part, parts) => if separates c then ([], part :: parts) else (c :: part, parts))
    ([], [])
  (part :: parts).filter fun p => !p.isEmpty

/-- A blank between the entries of a table. -/
def separatesEntries (c : Char) : Bool := c = ' ' || c = '\n'

/-- A set of characters, as ranges of their numbers. -/
structure CodeRanges where
  ranges : Array (Nat × Nat)

namespace CodeRanges

/-- Reads the written form of a table. -/
def read (table : String) : CodeRanges :=
  ⟨((splitParts separatesEntries table.toList).map fun entry =>
    match splitParts (· = '-') entry with
    | [first, last] => (ofHex first, ofHex last)
    | _ => (ofHex entry, ofHex entry)).toArray⟩

/-- The character lies in one of the ranges. -/
def contains (table : CodeRanges) (c : Char) : Bool :=
  table.ranges.any fun (first, last) => first ≤ c.toNat && c.toNat ≤ last

end CodeRanges

/-- Characters that become others, by ranges that move together. -/
structure CaseRange where
  first : Nat
  last : Nat
  stride : Nat
  becomes : List Nat

/-- A mapping of characters to what they become in another letter case. -/
structure CaseMapping where
  ranges : Array CaseRange

namespace CaseMapping

/-- Reads one entry of the written form. -/
def readEntry (entry : List Char) : CaseRange :=
  let (before, result) := match splitParts (· = '=') entry with
    | [a, b] => (a, b)
    | _ => (entry, [])
  let (span, stride) := match splitParts (· = '/') before with
    | [a, b] => (a, ofHex b)
    | _ => (before, 1)
  let (first, last) := match splitParts (· = '-') span with
    | [a, b] => (a, b)
    | _ => (span, span)
  ⟨ofHex first, ofHex last, stride, (splitParts (· = ',') result).map ofHex⟩

/-- Reads the written form of a table. -/
def read (table : String) : CaseMapping :=
  ⟨((splitParts separatesEntries table.toList).map readEntry).toArray⟩

/-- What a character becomes; one outside the table stays. -/
def apply (table : CaseMapping) (c : Char) : List Char :=
  let n := c.toNat
  match table.ranges.find? fun r => r.first ≤ n && n ≤ r.last && (n - r.first) % r.stride = 0 with
  | some r => r.becomes.map fun b => Char.ofNat (b + (n - r.first))
  | none => [c]

end CaseMapping

end TemplateEngine.Text
