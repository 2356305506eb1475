import TemplateEngine.Heap.Nesting

/-!
# Equality of values

Missing and null are equal to each other, an integer equals the float nearest to it, and text and
truth values are equal if they are the same. Lists, arrays and maps are equal part by part, each
with its own kind only. Objects, records and functions are equal only to themselves.
-/

namespace TemplateEngine

/-- Two lists are equal part by part. -/
def pairwiseEqual {α : Type} (eq : α → α → Bool) (xs ys : List α) : Bool :=
  xs.length = ys.length && (xs.zip ys).all fun p => eq p.1 p.2

namespace Store

/-- Compares down to `room` levels of parts; nothing below them is equal. -/
def equalWithin (s : Store) : Nat → Value → Value → Bool
  | 0, _, _ => false
  | _ + 1, .undefined, .undefined => true
  | _ + 1, .undefined, .null => true
  | _ + 1, .null, .undefined => true
  | _ + 1, .null, .null => true
  | _ + 1, .bool a, .bool b => a = b
  | _ + 1, .int a, .int b => a = b
  | _ + 1, .float a, .float b => a == b
  | _ + 1, .int a, .float b => Float.ofInt a == b
  | _ + 1, .float a, .int b => Float.ofInt b == a
  | _ + 1, .text a, .text b => a = b
  | room + 1, .list a, .list b =>
    a = b || pairwiseEqual (s.equalWithin room) (s.items a) (s.items b)
  | room + 1, .array a, .array b =>
    a = b || pairwiseEqual (s.equalWithin room) (s.items a) (s.items b)
  | room + 1, .map a, .map b =>
    a = b || pairwiseEqual (fun x y => x.1 = y.1 && s.equalWithin room x.2 y.2)
      (s.entries a).entries (s.entries b).entries
  | _ + 1, .object a, .object b => a = b
  | _ + 1, .record a, .record b => a = b
  | _ + 1, .function a, .function b => a.same b
  | _, _, _ => false

/-- Whether two values are equal. Parts that have more than `maxNesting` containers around them
do not count as equal. -/
def equal (s : Store) (a b : Value) : Bool := s.equalWithin (maxNesting + 1) a b

end Store

end TemplateEngine
