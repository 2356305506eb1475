import TemplateEngine.Semantics.Machine

/-!
# Rounds of loops

A loop runs rounds until its items are used up, its condition fails, or a round says how the loop
ends. The body of a round runs only after the round has been counted.
-/

namespace TemplateEngine

/-- How a loop ends after a round that control left in this way, if it does. -/
def Flow.endsLoop : Flow → Option Flow
  | .normal | .next => none
  | .stop => some .normal
  | .leave value => some (.leave value)

namespace Machine

open TemplateEngine.Action

/-- Runs a round for each item until one ends the loop. -/
def eachRound {α : Type} (round : α → Action (Option Flow)) :
    List α → Context → Outcome Flow × Context
  | [], c => (.ok .normal, c)
  | a :: rest, c =>
    match round a c with
    | (.ok none, c) => eachRound round rest c
    | (.ok (some flow), c) => (.ok flow, c)
    | (.error e, c) => (.error e, c)
    | (.outOfFuel, c) => (.outOfFuel, c)

/-- Runs rounds until one ends the loop, but no more than a number of them. -/
def repeatRound (round : Action (Option Flow)) : Nat → Context → Outcome Flow × Context
  | 0, c => (.outOfFuel, c)
  | n + 1, c =>
    match round c with
    | (.ok none, c) => repeatRound round n c
    | (.ok (some flow), c) => (.ok flow, c)
    | (.error e, c) => (.error e, c)
    | (.outOfFuel, c) => (.outOfFuel, c)

/-- What the name `loop` tells about a round: its number from one and from zero, whether it is
the first or the last, and the number of all rounds. -/
def loopEntries (index length : Nat) : Dictionary Value :=
  .ofList [
    ("index", .int (index + 1)),
    ("index0", .int index),
    ("first", .bool (index = 0)),
    ("last", .bool (index + 1 = length)),
    ("length", .int length)]

/-- One round of a loop over items. -/
def eachBody (name : String) (length : Nat) (body : Action Flow) (item : Value × Nat) :
    Action (Option Flow) := do
  stepLoop
  bindLoop name item.1
  let info ← onStore fun s => s.newMap (loopEntries item.2 length)
  bindLoop "loop" info
  let flow ← body
  pure flow.endsLoop

/-- One round of a loop with a condition. -/
def whileBody (condition : Action Value) (body : Action Flow) : Action (Option Flow) := do
  let v ← condition
  let holds ← inStore fun s => s.isTruthy v
  if holds then
    stepLoop
    let flow ← body
    pure flow.endsLoop
  else pure (some .normal)

/-- Runs a loop that stands at a place, with the names of the loop around it. -/
def inLoop (p : Position) (rounds : Action Flow) : Action Flow :=
  Region.loop.around (enterLoop p) do
    inheritLoop
    rounds

/-- The loop over items, of which there is at least one. -/
def forEach (name : String) (p : Position) (items : List Value) (body : Action Flow) :
    Action Flow :=
  inLoop p (eachRound (eachBody name items.length body) items.zipIdx)

/-- The loop with a condition. It cannot begin more rounds than are left, and one more in which
that is found out. -/
def whileLoop (p : Position) (condition : Action Value) (body : Action Flow) : Action Flow :=
  inLoop p fun c =>
    repeatRound (whileBody condition body) (c.limits.loops - c.scopes.iterations + 1) c

end Machine

/-- What a loop over a value visits: items, keys or members as they are when it begins. -/
def Store.iterationItems (s : Store) : Value → Except ScriptFault (List Value)
  | .undefined | .null => .ok []
  | .list r | .array r => .ok (s.items r)
  | .map r => .ok ((s.entries r).keys.map .text)
  | .object r => .ok ((s.objectKeys r).map .text)
  | v => .error (.type (.iterate (s.typeName v)))

end TemplateEngine
