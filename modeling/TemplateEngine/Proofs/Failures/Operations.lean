import TemplateEngine.Proofs.Variables.Refusals

/-!
# Operations that fail

Which operation on a context fails, and with which error, can be told from the context before it
(`Request.fault?`). That the two stacks of models and of local frames are never at odds with the
number of active calls is what makes it so: a model is closed together with a local frame or not at
all, and so is a call. An operation that fails leaves the context as it was, and all that values
refer to; only the round of a loop that is one too many is counted
(`failed_operation_changes_nothing`).
-/

namespace TemplateEngine

open TemplateEngine.Action

variable {s : Settings}

/-! ## Operations and their faults -/

/-- A request for one of the operations on a context that can fail, because of what is open or locked
in it or of what they are given. -/
inductive Request
  | pushGlobal (model : Value)
  | popGlobal
  | enterFunction (p : Position)
  | exitFunction
  | exitLoop
  | stepLoop
  | popOutput
  | pushSource (name : String)
  | popSource
  | write (ref : VarRef) (v : Value)
  | setReadOnly (ref : VarRef) (readOnly : Bool)
  | load (path : String) (p : Position)

/-- Why the template that a path stands for cannot be loaded, if it cannot. -/
def Context.loadFault? (c : Context) (path : String) : Option LoadError :=
  match c.loader with
  | none => some .noLoader
  | some loader =>
    match loader.resolve path c.source? with
    | .error e => some e
    | .ok name =>
      match c.templates.get? name with
      | some _ => none
      | none =>
        match loader.load name c.options with
        | .error e => some e
        | .ok _ => none

namespace Request

/-- Does it, without what it gives. -/
def act : Request → Action Unit
  | pushGlobal model => Action.pushGlobal model
  | popGlobal => do let _ ← Action.popGlobal
  | enterFunction p => Action.enterFunction p
  | exitFunction => Action.exitFunction
  | exitLoop => Action.exitLoop
  | stepLoop => Action.stepLoop
  | popOutput => do let _ ← Action.popOutput
  | pushSource name => Action.pushSource name
  | popSource => do let _ ← Action.popSource
  | write ref v => writeVariable ref v
  | setReadOnly ref readOnly => Action.setReadOnly ref readOnly
  | load path p => do let _ ← loadTemplate path p

/-- The error with which it fails, if it does. -/
def fault? (s : Settings) (c : Context) : Request → Option EvalError
  | pushGlobal model => if model.isAbsent then some (.usage .modelMissing) else none
  | popGlobal => if c.scopes.globals.size = 1 then some (.usage .rootModel) else none
  | enterFunction p =>
    if c.limits.depth ≤ c.scopes.depth then some (.script p (.recursionLimit c.limits.depth))
    else none
  | exitFunction => if c.scopes.depth = 0 then some (.usage .noFunction) else none
  | exitLoop => if c.scopes.loops.isEmpty then some (.usage .noLoop) else none
  | stepLoop =>
    if c.limits.loops ≤ c.scopes.iterations then
      some (.script c.scopes.loopPosition (.loopLimit c.limits.loops))
    else none
  | popOutput => if c.output.depth = 1 then some (.usage .rootBuffer) else none
  | pushSource name => if name.isEmpty then some (.usage .sourceNameMissing) else none
  | popSource => if c.sources.isEmpty then some (.usage .noSource) else none
  | write ref _ => (c.writeFault? s ref).map (.script ref.position)
  | setReadOnly ref _ =>
    if ref.scope = .loop ∧ c.scopes.loops.isEmpty then
      some (.script ref.position (.loopVariableOutsideLoop ref.name))
    else none
  | load path p => (c.loadFault? path).map fun e => .script p (.load path e)

/-- The context with the round counted, if a round is begun. -/
def counted (c : Context) : Request → Context
  | stepLoop => { c with scopes := { c.scopes with iterations := c.scopes.iterations + 1 } }
  | _ => c

end Request

/-! ## How each of them ends -/

/-- The action fails with the error if there is one, and then leaves this behind, apart from tables
of members; otherwise it succeeds. -/
def Concludes {α : Type} (r : Outcome α × Context) (left : Context) : Option EvalError → Prop
  | some e => ∃ members, r = (.error e, { left with members := members })
  | none => ∃ a d, r = (.ok a, d)

namespace Concludes

variable {α : Type} {c left : Context}

theorem of_error {r : Outcome α × Context} {e : EvalError} (h : r = (.error e, left)) :
    Concludes r left (some e) := ⟨left.members, h⟩

theorem of_ok {r : Outcome α × Context} {a : α} {d : Context} (h : r = (.ok a, d)) :
    Concludes r left none := ⟨a, d, h⟩

/-- What an action gives does not matter. -/
theorem discard {x : Action α} {fault : Option EvalError} (h : Concludes (x c) left fault) :
    Concludes ((do let _ ← x : Action Unit) c) left fault := by
  cases fault with
  | none =>
    obtain ⟨a, d, hx⟩ := h
    exact ⟨(), d, bind_of_ok hx⟩
  | some e =>
    obtain ⟨members, hx⟩ := h
    exact ⟨members, bind_of_error hx⟩

end Concludes

namespace Action

variable {c : Context}

/-- A model that is not the root is closed with a local frame, since there are at least as many of
these. -/
theorem concludes_popGlobal (h : c.InOrder s) :
    Concludes (popGlobal c) c (Request.popGlobal.fault? s c) := by
  have hlocals := h.scopes.locals
  simp only [Request.fault?, popGlobal, Scopes.popGlobal?]
  by_cases hroot : c.scopes.globals.size = 1
  · rw [if_pos hroot, Stack.pop?_eq_none_iff.2 hroot]
    exact .of_error rfl
  · rw [if_neg hroot]
    cases hg : c.scopes.globals.pop? with
    | none => exact absurd (Stack.pop?_eq_none_iff.1 hg) hroot
    | some g =>
      cases hl : c.scopes.locals.pop? with
      | none =>
        have hone := Stack.pop?_eq_none_iff.1 hl
        unfold Stack.size at hlocals hone hroot
        omega
      | some i => exact .of_ok rfl

theorem concludes_enterFunction (p : Position) :
    Concludes (enterFunction p c) c ((Request.enterFunction p).fault? s c) := by
  simp only [Request.fault?, enterFunction]
  by_cases hlimit : c.limits.depth ≤ c.scopes.depth
  · rw [if_pos hlimit, if_neg (Nat.not_lt.2 hlimit)]
    exact .of_error rfl
  · rw [if_neg hlimit, if_pos (Nat.lt_of_not_le hlimit)]
    exact .of_ok rfl

/-- An active call has a local frame over the one of the root. -/
theorem concludes_exitFunction (h : c.InOrder s) :
    Concludes (exitFunction c) c (Request.exitFunction.fault? s c) := by
  have hlocals := h.scopes.locals
  simp only [Request.fault?, exitFunction, Scopes.popLocal?]
  split
  · exact .of_error rfl
  · next hdepth =>
    cases hl : c.scopes.locals.pop? with
    | none =>
      have hone := Stack.pop?_eq_none_iff.1 hl
      unfold Stack.size at hlocals hone
      omega
    | some i => exact .of_ok rfl

theorem concludes_exitLoop : Concludes (exitLoop c) c (Request.exitLoop.fault? s c) := by
  simp only [Request.fault?, exitLoop, Scopes.popLoop?]
  cases c.scopes.loops with
  | nil => exact .of_error rfl
  | cons l rest => exact .of_ok rfl

theorem concludes_stepLoop :
    Concludes (stepLoop c) (Request.stepLoop.counted c) (Request.stepLoop.fault? s c) := by
  simp only [Request.fault?, Request.counted, stepLoop]
  by_cases hlimit : c.limits.loops ≤ c.scopes.iterations
  · rw [if_pos hlimit, if_neg (Nat.not_lt.2 hlimit)]
    exact .of_error rfl
  · rw [if_neg hlimit, if_pos (Nat.lt_of_not_le hlimit)]
    exact .of_ok rfl

theorem concludes_popOutput : Concludes (popOutput c) c (Request.popOutput.fault? s c) := by
  simp only [Request.fault?, popOutput, Output.pop?]
  by_cases hroot : c.output.depth = 1
  · rw [if_pos hroot, Stack.pop?_eq_none_iff.2 hroot]
    exact .of_error rfl
  · rw [if_neg hroot]
    cases hb : c.output.buffers.pop? with
    | none => exact absurd (Stack.pop?_eq_none_iff.1 hb) hroot
    | some b => exact .of_ok rfl

theorem concludes_popSource : Concludes (popSource c) c (Request.popSource.fault? s c) := by
  simp only [Request.fault?, popSource]
  cases c.sources with
  | nil => exact .of_error rfl
  | cons name rest => exact .of_ok rfl

theorem concludes_writeVariable (h : c.InOrder s) (ref : VarRef) (v : Value) :
    Concludes (writeVariable ref v c) c ((Request.write ref v).fault? s c) := by
  simp only [Request.fault?]
  obtain ⟨members, fault, hfault, hw⟩ | ⟨hnone, d, hw⟩ := writeVariable_cases h.members ref v
  · rw [hfault]
    exact ⟨members, hw⟩
  · rw [hnone]
    exact .of_ok hw

theorem concludes_setReadOnly (ref : VarRef) (readOnly : Bool) :
    Concludes (setReadOnly ref readOnly c) c ((Request.setReadOnly ref readOnly).fault? s c) := by
  simp only [Request.fault?, setReadOnly]
  cases ref.scope with
  | global => exact .of_ok rfl
  | locals => exact .of_ok rfl
  | loop =>
    simp only [Scopes.loopFrame?, bind_apply, view]
    cases c.scopes.loops with
    | nil => exact .of_error rfl
    | cons l rest => exact .of_ok rfl

theorem concludes_loadTemplate (path : String) (p : Position) :
    Concludes (loadTemplate path p c) c ((Request.load path p).fault? s c) := by
  have hstart : view id c = (.ok c, c) := rfl
  simp only [Request.fault?, Context.loadFault?, loadTemplate]
  rw [bind_of_ok hstart]
  cases c.loader with
  | none => exact .of_error rfl
  | some loader =>
    dsimp only
    cases loader.resolve path c.source? with
    | error e => exact .of_error rfl
    | ok name =>
      dsimp only
      cases c.templates.get? name with
      | some t => exact .of_ok rfl
      | none =>
        dsimp only
        cases loader.load name c.options with
        | error e => exact .of_error rfl
        | ok t => exact .of_ok rfl

end Action

/-- How an operation ends can be told from the context before it. -/
theorem Request.concludes {c : Context} (h : c.InOrder s) (request : Request) :
    Concludes (request.act c) (request.counted c) (request.fault? s c) := by
  cases request with
  | pushGlobal model =>
    simp only [act, fault?, counted, Action.pushGlobal]
    split
    · exact .of_error rfl
    · exact .of_ok rfl
  | popGlobal => exact (concludes_popGlobal h).discard
  | enterFunction p => exact concludes_enterFunction p
  | exitFunction => exact concludes_exitFunction h
  | exitLoop => exact concludes_exitLoop
  | stepLoop => exact concludes_stepLoop
  | popOutput => exact concludes_popOutput.discard
  | pushSource name =>
    simp only [act, fault?, counted, Action.pushSource]
    split
    · exact .of_error rfl
    · exact .of_ok rfl
  | popSource => exact concludes_popSource.discard
  | write ref v => exact concludes_writeVariable h ref v
  | setReadOnly ref readOnly => exact concludes_setReadOnly ref readOnly
  | load path p => exact (concludes_loadTemplate path p).discard

/-- Whatever was done with a context before, an operation fails exactly if the context says so, and
with that error. Then the context is left as it was: the models, the frames with what they bind and
what is locked in them, the numbers of active calls and of counted rounds, the buffers, the sources,
the loaded templates and all that values refer to. A round that is one too many is counted, and the
tables of members that were made to find out are kept, which are no more than what is known about
types. -/
theorem failed_operation_changes_nothing {host : Host} (hhost : host.Orderly s) {c : Context}
    (hc : c.Reached host s) (request : Request) :
    (∀ e, (request.act c).1 = .error e ↔ request.fault? s c = some e) ∧
    (∀ e d, request.act c = (.error e, d) →
      d = { request.counted c with members := d.members }) ∧
    (request.fault? s c = none → ∃ d, request.act c = (.ok (), d)) := by
  have hends := request.concludes (hc.inOrder hhost)
  generalize request.act c = result at hends ⊢
  generalize request.counted c = left at hends ⊢
  generalize request.fault? s c = fault at hends ⊢
  -- the fault tells the ending, and what is said of the other ending is then empty
  cases fault with
  | none =>
    obtain ⟨u, d, rfl⟩ := hends
    exact ⟨fun e => ⟨nofun, nofun⟩, fun e d => nofun, fun _ => ⟨d, rfl⟩⟩
  | some fault =>
    obtain ⟨members, rfl⟩ := hends
    refine ⟨fun e => ?_, fun e d hd => ?_, nofun⟩
    · rw [Outcome.error.injEq, Option.some.injEq]
    · rw [← (Prod.mk.inj hd).2]

/-- A list of one item refuses that its length is written, and a context over it stays as it is. -/
theorem refused_length_changes_nothing :
    let p : Position := ⟨1, 1⟩
    let c := (Settings.standard id).newContext.opening fun σ => σ.newList [.int 1]
    let request : Request := .write ⟨"length", .global, p⟩ .null
    ∃ d, request.act c = (.error (.script p (.readOnlyVariable "length")), d) ∧
      d = { c with members := d.members } := by
  intro p c request
  have hc : c.Reached Host.none (Settings.standard id) := Context.Reached.opened.opening _
  obtain ⟨hfails, hsame, -⟩ := failed_operation_changes_nothing Host.none_orderly hc request
  have hact := Prod.ext ((hfails (.script p (.readOnlyVariable "length"))).2 rfl) rfl
  exact ⟨(request.act c).2, hact, hsame _ _ hact⟩

end TemplateEngine
