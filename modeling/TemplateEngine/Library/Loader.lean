import TemplateEngine.Dictionary
import TemplateEngine.Library.Path
import TemplateEngine.Source.Parse

/-!
# Where templates come from

Loading has two steps, so that a template that was read before need not be read again: a path
resolves to the name of a template, and the source under that name is read.
-/

namespace TemplateEngine

/-- Why the text of a file cannot be had. -/
inductive ReadFault
  | missing
  | directory
  | notDirectory
  | nameTooLong
  | zeroInName
  | notText
  /-- The file has not been looked at. -/
  | unread
  /-- The reason that the system gives. -/
  | system (reason : String)
deriving DecidableEq

/-- The wording of the reason. -/
def ReadFault.message : ReadFault → String
  | .missing => "No such file or directory (os error 2)"
  | .directory => "Is a directory (os error 21)"
  | .notDirectory => "Not a directory (os error 20)"
  | .nameTooLong => "File name too long (os error 36)"
  | .zeroInName => "file name contained an unexpected NUL byte"
  | .notText => "stream did not contain valid UTF-8"
  | .unread => "not read yet"
  | .system reason => reason

/-- Why a template cannot be loaded. -/
inductive LoadError
  | noLoader
  | notFound (name : String)
  | outsideRoot (path : String)
  | unreadable (name : String) (fault : ReadFault)
  | parse (e : ParseError)
deriving DecidableEq

/-- The wording of the reason. -/
def LoadError.message : LoadError → String
  | .noLoader => "no template loader configured"
  | .notFound name => s!"template not found: {name}"
  | .outsideRoot path => s!"path escapes the template root: {path}"
  | .unreadable name fault => s!"failed to read {name}: {fault.message}"
  | .parse e => e.message

/-- A source of templates. -/
structure Loader where
  /-- The name of the template that a path stands for, as written in `includer`. -/
  resolve : (path : String) → (includer : Option String) → Except LoadError String
  /-- Reads the template of a name. -/
  load : (name : String) → ParserOptions → Except LoadError Template

/-! ## Templates in memory -/

/-- Sources by the place that their names lead to. -/
structure Shelf where
  sources : Dictionary String

namespace Shelf

/-- No sources. -/
def empty : Shelf := ⟨.empty⟩

/-- Adds a source, or replaces the one at the same place. A name that leads nowhere is kept as it
is. -/
def insert (s : Shelf) (name source : String) : Shelf :=
  ⟨s.sources.insert ((Path.join? none name).getD name) source⟩

/-- A path is tried where it is written, and then from the root. -/
def resolve (s : Shelf) (path : String) (includer : Option String) : Except LoadError String :=
  match Path.join? includer path with
  | none => .error (.outsideRoot path)
  | some near =>
    if s.sources.contains near then .ok near
    else
      match Path.join? none path with
      | some far => if s.sources.contains far then .ok far else .error (.notFound near)
      | none => .error (.notFound near)

/-- Reads the template of a name. -/
def load (s : Shelf) (name : String) (options : ParserOptions) : Except LoadError Template :=
  match s.sources.get? name with
  | none => .error (.notFound name)
  | some source => (Template.parse name source options).mapError .parse

/-- The shelf as a source of templates. -/
def loader (s : Shelf) : Loader := ⟨s.resolve, s.load⟩

end Shelf

/-! ## Templates in files -/

/-- A source of templates that asks for the text of a file by its name below a root. -/
def Loader.ofFiles (read : String → Except ReadFault String) : Loader where
  resolve path includer :=
    match Path.join? includer path with
    | some name => .ok name
    | none => .error (.outsideRoot path)
  load name options :=
    match read name with
    | .ok source => (Template.parse name source options).mapError .parse
    | .error .missing => .error (.notFound name)
    | .error fault => .error (.unreadable name fault)

/-! ## Sources of templates -/

/-- Every template that the loader gives was read. -/
def Loader.Reads (l : Loader) : Prop := ∀ name options t, l.load name options = .ok t →
  ∃ source, Template.parse name source options = .ok t

theorem Shelf.reads_loader (s : Shelf) : s.loader.Reads := by
  intro name options t h
  change s.load name options = .ok t at h
  unfold Shelf.load at h
  split at h
  · cases h
  · next source _ =>
    refine ⟨source, ?_⟩
    cases hp : Template.parse name source options <;> rw [hp] at h <;> cases h
    rfl

theorem Loader.reads_ofFiles (read : String → Except ReadFault String) :
    (Loader.ofFiles read).Reads := by
  intro name options t h
  simp only [ofFiles] at h
  split at h
  · next source _ =>
    refine ⟨source, ?_⟩
    cases hp : Template.parse name source options <;> rw [hp] at h <;> cases h
    rfl
  · cases h
  · cases h

end TemplateEngine
