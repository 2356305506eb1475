import TemplateEngine.State.Context
import TemplateEngine.State.Fault

/-!
# Actions

An action works on a context and ends in one of three ways: with a result, with an error, or by
running out of the levels of calls that it was given. The context as it is then comes with it in
every case, so that what was done before an error is never lost.
-/

namespace TemplateEngine

/-- How an action ends. -/
inductive Outcome (α : Type)
  | ok (a : α)
  | error (e : EvalError)
  | outOfFuel

/-- Work on a context. -/
def Action (α : Type) : Type := Context → Outcome α × Context

namespace Action

variable {α β : Type}

/-- Does nothing. -/
protected def pure (a : α) : Action α := fun c => (.ok a, c)

/-- Goes on with the result, if there is one. -/
protected def bind (x : Action α) (f : α → Action β) : Action β := fun c =>
  match x c with
  | (.ok a, c) => f a c
  | (.error e, c) => (.error e, c)
  | (.outOfFuel, c) => (.outOfFuel, c)

instance : Monad Action where
  pure := Action.pure
  bind := Action.bind

@[simp] theorem pure_apply (a : α) (c : Context) : (pure a : Action α) c = (.ok a, c) := rfl

theorem bind_apply (x : Action α) (f : α → Action β) (c : Context) :
    (x >>= f) c =
      match x c with
      | (.ok a, c) => f a c
      | (.error e, c) => (.error e, c)
      | (.outOfFuel, c) => (.outOfFuel, c) := rfl

theorem bind_of_ok {x : Action α} {f : α → Action β} {c d : Context} {a : α}
    (h : x c = (.ok a, d)) : (x >>= f) c = f a d := by
  simp [bind_apply, h]

theorem bind_of_error {x : Action α} {f : α → Action β} {c d : Context} {e : EvalError}
    (h : x c = (.error e, d)) : (x >>= f) c = (.error e, d) := by
  simp [bind_apply, h]

theorem bind_of_outOfFuel {x : Action α} {f : α → Action β} {c d : Context}
    (h : x c = (.outOfFuel, d)) : (x >>= f) c = (.outOfFuel, d) := by
  simp [bind_apply, h]

/-! ## Simple actions -/

/-- Fails. -/
def fail (e : EvalError) : Action α := fun c => (.error e, c)

/-- Fails because of the script. -/
def failAt (p : Position) (fault : ScriptFault) : Action α := fail (.script p fault)

/-- Fails because the engine is used wrongly. -/
def misuse (fault : UsageFault) : Action α := fail (.usage fault)

/-- Has no level of calls left. -/
def outOfFuel : Action α := fun c => (.outOfFuel, c)

/-- Looks something up. -/
def view (f : Context → α) : Action α := fun c => (.ok (f c), c)

/-- Changes the context. -/
def modify (f : Context → Context) : Action Unit := fun c => (.ok (), f c)

/-- Looks something up in the store. -/
def inStore (f : Store → α) : Action α := view fun c => f c.store

/-- Works on the store. -/
def onStore (f : Store → α × Store) : Action α := fun c =>
  let (a, store) := f c.store
  (.ok a, { c with store := store })

/-- Works on the store, which can fail because of the script. -/
def tryStore (p : Position) (f : Store → Except ScriptFault (α × Store)) : Action α := fun c =>
  match f c.store with
  | .ok (a, store) => (.ok a, { c with store := store })
  | .error fault => (.error (.script p fault), c)

/-- Looks something up in the store, which can fail because of the script. -/
def tryView (p : Position) (f : Store → Except ScriptFault α) : Action α := fun c =>
  match f c.store with
  | .ok a => (.ok a, c)
  | .error fault => (.error (.script p fault), c)

/-- The text of a value, or a failure at the place. -/
def toText (v : Value) (p : Position) : Action String :=
  tryView p fun s => (s.toText v).mapError .conversion

/-- The integer of a value, or a failure at the place. -/
def toInteger (v : Value) (p : Position) : Action Int :=
  tryView p fun s => (s.toInteger v).mapError .conversion

/-- Runs an action between the opening and the closing of something. It is closed on every way
out; what closing it says counts only if the action itself had a result. -/
def between (opening : Action Unit) (closing : Action β) (body : Action α) : Action (α × β) :=
  fun c =>
    match opening c with
    | (.ok _, c) =>
      match body c with
      | (.ok a, c) =>
        match closing c with
        | (.ok b, c) => (.ok (a, b), c)
        | (.error e, c) => (.error e, c)
        | (.outOfFuel, c) => (.outOfFuel, c)
      | (.error e, c) => (.error e, (closing c).2)
      | (.outOfFuel, c) => (.outOfFuel, (closing c).2)
    | (.error e, c) => (.error e, c)
    | (.outOfFuel, c) => (.outOfFuel, c)

/-- Sets for an action whether the outermost function is given instead of called, and puts back
after it what was set before. -/
def withSuppression (suppressed : Bool) (body : Action α) : Action α := fun c =>
  let (r, d) := body { c with suppressed := suppressed }
  (r, { d with suppressed := c.suppressed })

@[simp] theorem suppressed_withSuppression (suppressed : Bool) (body : Action α) (c : Context) :
    (withSuppression suppressed body c).2.suppressed = c.suppressed := rfl

/-- What was set before has no part in an action that sets it. -/
theorem withSuppression_withSuppression (outer inner : Bool) (body : Action α) :
    withSuppression outer (withSuppression inner body) = withSuppression inner body := rfl

end Action

end TemplateEngine
