import TemplateEngine.State.Action
import TemplateEngine.Text.LetterCase

/-!
# Built-in functions

Every one of them takes at most so many arguments; one that is not given is undefined.
-/

namespace TemplateEngine

/-- The argument at a position. -/
def argument (args : List Value) (i : Nat) : Value := (args[i]?).getD .undefined

/-! ## Ranges -/

/-- How many numbers a range has: those from `start` on by `step` that lie before `stop`. -/
def rangeCount (start stop step : Int) : Nat :=
  let span := if 0 < step then stop - start else start - stop
  if span ≤ 0 then 0 else ((span - 1) / step.natAbs + 1).toNat

/-- Puts so many numbers behind others, from `current` on, each of them `step` further. -/
def countBy (step : Int) : Nat → Int → Array Int → Array Int
  | 0, _, numbers => numbers
  | count + 1, current, numbers => countBy step count (current + step) (numbers.push current)

/-- The numbers of a range: a sum of any size grows by the step, and each number is cut from it. -/
def rangeItems (start stop step : Int) : List Value :=
  (countBy step (rangeCount start stop step) start #[]).toList.map fun n => .int (Integer.narrow n)

namespace Builtin

/-- The most arguments that a function takes. -/
def arity : Builtin → Nat
  | .join => 2
  | .range => 3
  | .default => 2
  | _ => 1

open TemplateEngine.Action

/-- The number of characters, items, entries or members. -/
def countOf (s : Store) : Value → Except ScriptFault Nat
  | .undefined | .null => .ok 0
  | .text t => .ok t.length
  | .list r | .array r => .ok (s.items r).length
  | .map r => .ok (s.entries r).size
  | .object r => .ok (s.objectKeys r).length
  | v => .error (.type (.lenOf (s.typeName v)))

/-- The items that are joined. -/
def joinItems (s : Store) : Value → Except ScriptFault (List Value)
  | .undefined | .null => .ok []
  | .list r | .array r => .ok (s.items r)
  | v => .error (.type (.joinOf (s.typeName v)))

/-- The keys or members that a value shows. -/
def keysOf (s : Store) : Value → Except ScriptFault (List String)
  | .undefined | .null => .ok []
  | .map r => .ok (s.entries r).keys
  | .object r => .ok (s.objectKeys r)
  | v => .error (.type (.keysOf (s.typeName v)))

/-- The texts of values, each in turn. -/
def textsOf (p : Position) : List Value → Action (List String)
  | [] => pure []
  | v :: rest => do
    let t ← toText v p
    let ts ← textsOf p rest
    pure (t :: ts)

/-- The text of the argument, changed. -/
def mapText (args : List Value) (p : Position) (f : List Char → List Char) : Action Value := do
  let t ← toText (argument args 0) p
  pure (.text (String.ofList (f t.toList)))

/-- The beginning and the end of a range: one argument is the end. -/
def rangeBounds (p : Position) : List Value → Action (Int × Int)
  | [] => failAt p (.type .rangeEmpty)
  | [stop] => do
    let stop ← toInteger stop p
    pure (0, stop)
  | start :: stop :: _ => do
    let start ← toInteger start p
    let stop ← toInteger stop p
    pure (start, stop)

/-- The numbers of a range as a new list, of which there may be no more than rounds of loops. -/
def rangeOf (args : List Value) (p : Position) : Action Value := do
  let (start, stop) ← rangeBounds p args
  let step ← match args[2]? with
    | some v => toInteger v p
    | none => pure 1
  if step = 0 then failAt p (.type .rangeStep)
  else
    let limit ← view fun c => c.limits.loops
    if limit < rangeCount start stop step then failAt p (.loopLimit limit)
    else onStore fun s => s.newList (rangeItems start stop step)

/-- The value of a built-in function. -/
def apply (b : Builtin) (args : List Value) (p : Position) : Action Value :=
  match b with
  | .len => do
    let n ← tryView p fun s => countOf s (argument args 0)
    pure (.int n)
  | .upper => mapText args p Text.upper
  | .lower => mapText args p Text.lower
  | .trim => mapText args p Text.trim
  | .join => do
    let separator ← toText (argument args 1) p
    let items ← tryView p fun s => joinItems s (argument args 0)
    let texts ← textsOf p items
    pure (.text (separator.intercalate texts))
  | .range => rangeOf args p
  | .keys => do
    let names ← tryView p fun s => keysOf s (argument args 0)
    onStore fun s => s.newList (names.map .text)
  | .default =>
    pure (if (argument args 0).isAbsent then argument args 1 else argument args 0)
  | .str => do
    let t ← toText (argument args 0) p
    pure (.text t)
  | .int => do
    let n ← toInteger (argument args 0) p
    pure (.int n)

/-- Calls a built-in function at a place. -/
def call (b : Builtin) (args : List Value) (p : Position) : Action Value :=
  if b.arity < args.length then failAt p (.argumentCount b.name b.arity args.length)
  else b.apply args p

end Builtin

end TemplateEngine
