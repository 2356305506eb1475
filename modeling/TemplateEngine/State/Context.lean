import TemplateEngine.Library.Loader
import TemplateEngine.Members.Accessor
import TemplateEngine.Members.Sequence
import TemplateEngine.State.Output
import TemplateEngine.State.Scopes
import TemplateEngine.Text.Quoted

/-!
# Contexts

Everything that a run can change: the store, the scopes, the members found so far, the output,
the sources that are being rendered, the templates loaded so far and what the host keeps beside
them. A context is opened from settings.
-/

namespace TemplateEngine

/-- How much a context may use: loop rounds over its whole life, and calls within each other. -/
structure Limits where
  loops : Nat
  depth : Nat
deriving DecidableEq

/-- The limits that hold if nothing else is said. -/
def Limits.standard : Limits := ⟨1000, 100⟩

/-- Something that the host keeps with a context. -/
inductive Metadatum
  | text (s : String)
  | int (n : Int)

/-- What templates work on. -/
structure Context where
  store : Store
  scopes : Scopes
  members : MemberAccessors
  sequences : SequenceAccessors
  output : Output
  /-- The names of the templates that are being rendered, innermost first. -/
  sources : List String
  /-- The templates that were loaded, by name. -/
  templates : Dictionary Template
  loader : Option Loader
  options : ParserOptions
  metadata : Dictionary Metadatum
  limits : Limits
  /-- The expression being evaluated gives its function instead of calling it. -/
  suppressed : Bool

namespace Context

/-- The template that is being rendered. -/
def source? (c : Context) : Option String := c.sources.head?

/-- The state of a context in brief, for developers. -/
def debug (c : Context) : String :=
  let source := match c.source? with
    | none => "None"
    | some name => "Some(" ++ Text.quoted name ++ ")"
  "Context \x7b globals: " ++ toString c.scopes.globals.size ++
    ", loops: " ++ toString c.scopes.loops.length ++
    ", depth: " ++ toString c.scopes.depth ++
    ", iterations: " ++ toString c.scopes.iterations ++
    ", output_depth: " ++ toString c.output.depth ++
    ", source: " ++ source ++ ", .. \x7d"

end Context

/-! ## Settings -/

/-- How a context is opened. -/
structure Settings where
  limits : Limits
  outputEnabled : Bool
  options : ParserOptions
  loader : Option Loader
  transform : String → String
  shapes : Shapes
  /-- Further functions that every template can call: the name and the operation of the host. -/
  functions : List (String × String)
  metadata : Dictionary Metadatum

namespace Settings

/-- The settings that hold if nothing else is said, for a rule that names members. -/
def standard (transform : String → String) : Settings :=
  ⟨.standard, true, .plain, none, transform, .empty, [], .empty⟩

/-- The settings in brief, for developers. -/
def debug (s : Settings) : String :=
  let flag (b : Bool) := if b then "true" else "false"
  "ContextBuilder \x7b max_loop_iterations: " ++ toString s.limits.loops ++
    ", max_recursion_depth: " ++ toString s.limits.depth ++
    ", output_enabled: " ++ flag s.outputEnabled ++
    ", parser_options: ParserOptions \x7b trim_blocks: " ++ flag s.options.trimBlocks ++
    " \x7d, has_loader: " ++ flag s.loader.isSome ++ ", .. \x7d"

/-- The namespace of the functions that every template can call, all locked. Those of the host
replace others of the same name. -/
def root (s : Settings) : Frame × Store :=
  let own := Builtin.all.foldl (fun f b => f.define b.name (.function (.builtin b)) true) .empty
  s.functions.foldl (fun (f, store) (name, operation) =>
    let (v, store) := store.newNative name operation
    (f.define name v true, store)) (own, .empty)

/-- Opens a context. -/
def newContext (s : Settings) : Context :=
  let (frame, store) := s.root
  let (namespaceValue, store) := store.newNamespace frame
  { store := store
    scopes := .new namespaceValue
    members := .new s.shapes s.transform
    sequences := .new
    output := .new s.outputEnabled
    sources := []
    templates := .empty
    loader := s.loader
    options := s.options
    metadata := s.metadata
    limits := s.limits
    suppressed := false }

end Settings

end TemplateEngine
