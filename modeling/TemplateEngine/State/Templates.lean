import TemplateEngine.State.Action

/-!
# Loaded templates

A template that was loaded once is kept under its name and given out again: the same template,
with the same functions.
-/

namespace TemplateEngine.Action

/-- Gives a template and the functions defined in it identities of their own. -/
def identify (t : Template) : Action Template := onStore fun s =>
  let (t, n) := t.identify s.nextIdentity
  (t, ⟨s.cells, n⟩)

/-- Keeps a template under its name, in place of another. -/
def cacheTemplate (t : Template) : Action Unit := modify fun c =>
  { c with templates := c.templates.insert t.name t }

/-- Loads the template that a path stands for, as written in the template being rendered. -/
def loadTemplate (path : String) (p : Position) : Action Template := do
  let c ← view id
  match c.loader with
  | none => failAt p (.load path .noLoader)
  | some loader =>
    match loader.resolve path c.source? with
    | .error e => failAt p (.load path e)
    | .ok name =>
      match c.templates.get? name with
      | some t => pure t
      | none =>
        match loader.load name c.options with
        | .error e => failAt p (.load path e)
        | .ok t =>
          let t ← identify t
          modify fun c => { c with templates := c.templates.insert name t }
          pure t

end TemplateEngine.Action
