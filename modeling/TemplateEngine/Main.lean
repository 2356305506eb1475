import TemplateEngine.CommandLine.Run

/-!
# Entry point

Runs the program and reads the files that it asks for.
-/

open TemplateEngine

/-- The text of a file of the system. -/
def readSystemFile (file : String) : IO (Except ReadFault String) := do
  try
    let bytes ← IO.FS.readBinFile file
    match String.fromUTF8? bytes with
    | some text => return .ok text
    | none => return .error .notText
  catch e =>
    match e with
    | .noFileOrDirectory .. => return .error .missing
    | .inappropriateType _ 21 _ => return .error .directory
    | .inappropriateType .. => return .error .notDirectory
    | e => return .error (.system e.toString)

/-- Runs the program again with one file more, until it needs no other. -/
partial def finish (args : List String) (files : Dictionary (Except ReadFault String)) :
    IO Report := do
  match CommandLine.run args fun file => (files.get? file).getD (.error .unread) with
  | .finished r => return r
  | .needs file =>
    let content ← readSystemFile file
    finish args (files.insert file content)

/-- Runs the program and writes its report. -/
def main (args : List String) : IO UInt32 := do
  let r ← finish args .empty
  let output ← IO.getStdout
  output.putStr r.output
  output.flush
  let errors ← IO.getStderr
  errors.putStr r.errors
  return r.code.toUInt32
