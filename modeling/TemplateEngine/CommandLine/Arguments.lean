import TemplateEngine.Number.Integer

/-!
# Command line arguments

One template file, and options before and behind it: `--set NAME=VALUE` any number of times, and
at most once each `--max-loops N`, `--max-depth N` and `--trim-blocks`. The value of an option
stands behind an equals sign or is the next argument, which then must not look like an option.
Behind `--` every argument is a file.
-/

namespace TemplateEngine

/-- What is asked for. -/
structure Arguments where
  file : String
  /-- The bindings of the model, as they are written. -/
  sets : List String
  maxLoops : Option Nat
  maxDepth : Option Nat
  trimBlocks : Bool
deriving DecidableEq

/-- Why nothing is rendered. -/
inductive ArgumentsHalt
  /-- The arguments make no sense. -/
  | usage
  /-- Help is asked for. -/
  | help
  /-- The version is asked for. -/
  | version
deriving DecidableEq

namespace Arguments

/-- What has been read so far; the file may still be missing. -/
structure Draft where
  file : Option String
  sets : List String
  maxLoops : Option Nat
  maxDepth : Option Nat
  trimBlocks : Bool

/-- Nothing has been read. -/
def Draft.empty : Draft := ⟨none, [], none, none, false⟩

/-- A number in the range of 64 bits without a sign; a plus may stand before it. -/
def number? (text : String) : Option Nat :=
  let digits := match text.toList with
    | '+' :: ds => ds
    | ds => ds
  (Integer.unsigned? digits).bind fun n => if n < Nat.pow 2 64 then some n else none

/-- Whether an argument looks like an option. -/
def looksLikeOption (text : String) : Bool :=
  match text.toList with
  | '-' :: _ :: _ => true
  | _ => false

/-- Takes a number that may be given only once. -/
def once (before : Option Nat) (text : String) : Except ArgumentsHalt (Option Nat) :=
  match before, number? text with
  | none, some n => .ok (some n)
  | _, _ => .error .usage

/-- Takes an option with its value. -/
def Draft.take (d : Draft) (option value : String) : Except ArgumentsHalt Draft :=
  if option = "set" then .ok { d with sets := d.sets ++ [value] }
  else if option = "max-loops" then
    (once d.maxLoops value).map fun n => { d with maxLoops := n }
  else if option = "max-depth" then
    (once d.maxDepth value).map fun n => { d with maxDepth := n }
  else .error .usage

/-- Takes the file, which has a name and is given only once. -/
def Draft.takeFile (d : Draft) (file : String) : Except ArgumentsHalt Draft :=
  if d.file.isSome || file.isEmpty then .error .usage else .ok { d with file := some file }

/-- Whether an option has a value. -/
def hasValue (option : String) : Bool :=
  option = "set" || option = "max-loops" || option = "max-depth"

/-- Takes an option without a value. -/
def Draft.takeFlag (d : Draft) (option : String) : Except ArgumentsHalt Draft :=
  if option = "help" then .error .help
  else if option = "version" then .error .version
  else if option = "trim-blocks" && !d.trimBlocks then .ok { d with trimBlocks := true }
  else .error .usage

/-- Reads arguments from left to right. -/
def readAll (d : Draft) : List String → Except ArgumentsHalt Draft
  | [] => .ok d
  | "--" :: rest => rest.foldlM Draft.takeFile d
  | a :: rest =>
    match a.toList with
    | '-' :: '-' :: body =>
      let option := String.ofList (body.takeWhile (· ≠ '='))
      match body.dropWhile (· ≠ '=') with
      | _ :: value => do
        let d ← d.take option (String.ofList value)
        readAll d rest
      | [] =>
        if hasValue option then
          match rest with
          | [] => .error .usage
          | value :: rest =>
            if looksLikeOption value then .error .usage
            else do
              let d ← d.take option value
              readAll d rest
        else do
          let d ← d.takeFlag option
          readAll d rest
    | '-' :: 'h' :: _ => .error .help
    | '-' :: 'V' :: _ => .error .version
    | '-' :: _ :: _ => .error .usage
    | _ => do
      let d ← d.takeFile a
      readAll d rest

/-- Reads the arguments of the program. -/
def read (args : List String) : Except ArgumentsHalt Arguments := do
  let d ← readAll .empty args
  match d.file with
  | some file => .ok ⟨file, d.sets, d.maxLoops, d.maxDepth, d.trimBlocks⟩
  | none => .error .usage

end Arguments

end TemplateEngine
