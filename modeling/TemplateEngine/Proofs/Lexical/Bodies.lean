import TemplateEngine.Proofs.Lexical.Regions
import TemplateEngine.Proofs.Lexical.Parsing

/-!
# Where calls begin

The body of a function begins one call deeper, with a new buffer and a new local frame, in which the
parameters are bound and nothing else is (`Context.Begins`, `Context.begins_bodyStart`). A call that
is allowed runs the body there and then gives back what it opened (`callDefined_eq`). The functions
that a template defines, wherever the definitions stand in it, are lexical if the template is
(`FunctionDef.OfSource.lexical`).
-/

namespace TemplateEngine

open TemplateEngine.Action ScopeView

/-! ## Where a body begins -/

namespace Frame

/-- The frame with parameters bound to arguments, of which those that are missing are undefined. -/
def bindParams (f : Frame) : List String → List Value → Frame
  | [], _ => f
  | name :: rest, args =>
    (f.define name (args.head?.getD .undefined) false).bindParams rest args.tail

/-- Parameters are not locked. -/
theorem isReadOnly_bindParams {f : Frame} {params : List String} {args : List Value}
    {name : String} (h : f.isReadOnly name = false) :
    (f.bindParams params args).isReadOnly name = false := by
  induction params generalizing f args with
  | nil => exact h
  | cons param rest ih =>
    refine ih ?_
    rw [isReadOnly_define]
    split
    · rfl
    · exact h

/-- The last of the parameters that have a name. -/
def LastParam (params : List String) (name : String) (i : Nat) : Prop :=
  params[i]? = some name ∧ ∀ j, i < j → params[j]? ≠ some name

theorem lastParam_cons_zero {param name : String} {rest : List String} :
    LastParam (param :: rest) name 0 ↔ param = name ∧ name ∉ rest := by
  simp only [LastParam, List.getElem?_cons_zero, Option.some.injEq, List.mem_iff_getElem?,
    not_exists]
  refine and_congr_right fun _ => ⟨fun h i => ?_, fun h j hj => ?_⟩
  · simpa using h (i + 1) (Nat.succ_pos i)
  · obtain ⟨i, rfl⟩ := Nat.exists_eq_succ_of_ne_zero (Nat.ne_of_gt hj)
    simpa using h i

theorem lastParam_cons_succ {param name : String} {rest : List String} {i : Nat} :
    LastParam (param :: rest) name (i + 1) ↔ LastParam rest name i := by
  simp only [LastParam, List.getElem?_cons_succ]
  refine and_congr_right fun _ => ⟨fun h j hj => ?_, fun h j hj => ?_⟩
  · simpa using h (j + 1) (Nat.succ_lt_succ hj)
  · obtain ⟨k, rfl⟩ := Nat.exists_eq_succ_of_ne_zero (Nat.ne_of_gt (Nat.lt_of_le_of_lt
      (Nat.zero_le _) hj))
    simpa using h k (Nat.lt_of_succ_lt_succ hj)

/-- A name is bound to the argument of the last parameter that has it, or as before. -/
theorem get?_bindParams {f : Frame} {params : List String} {args : List Value} {name : String}
    {v : Value} : (f.bindParams params args).get? name = some v ↔
      (∃ i, LastParam params name i ∧ v = (args[i]?).getD .undefined) ∨
        name ∉ params ∧ f.get? name = some v := by
  induction params generalizing f args with
  | nil => simp [bindParams, LastParam]
  | cons param rest ih =>
    rw [bindParams, ih, get?_define]
    -- the first parameter counts only if none of the others has its name
    constructor
    · rintro (⟨i, hi, hv⟩ | ⟨hrest, hget⟩)
      · refine .inl ⟨i + 1, lastParam_cons_succ.2 hi, ?_⟩
        rw [hv, List.getElem?_tail]
      · split at hget
        · next hname =>
          refine .inl ⟨0, lastParam_cons_zero.2 ⟨hname, hrest⟩, ?_⟩
          rw [← List.head?_eq_getElem?]
          exact (Option.some.inj hget).symm
        · next hname =>
          refine .inr ⟨?_, hget⟩
          rw [List.mem_cons, not_or]
          exact ⟨fun heq => hname heq.symm, hrest⟩
    · rintro (⟨_ | i, hi, hv⟩ | ⟨hname, hget⟩)
      · obtain ⟨hname, hrest⟩ := lastParam_cons_zero.1 hi
        refine .inr ⟨hrest, ?_⟩
        rw [if_pos hname, hv, List.head?_eq_getElem?]
      · refine .inl ⟨i, lastParam_cons_succ.1 hi, ?_⟩
        rw [hv, List.getElem?_tail]
      · rw [List.mem_cons, not_or] at hname
        refine .inr ⟨hname.2, ?_⟩
        rw [if_neg fun heq => hname.1 heq.symm]
        exact hget

end Frame

/-- The context in which the body of a function begins: one call deeper, with a new buffer and a new
local frame that binds the parameters. -/
def Context.bodyStart (c : Context) (f : FunctionDef) (args : List Value) : Context :=
  let s := { c.scopes.pushLocal with depth := c.scopes.depth + 1 }
  { c with
    scopes := s.setLocalFrame (Frame.empty.bindParams f.params args)
    output := c.output.push }

/-- At `b` the body of a function begins that is called at `c`: its local frame binds the parameters
and nothing else, under it and around it are the frames of the caller, and beside the frames it is
one call deeper and has a new buffer. -/
structure Context.Begins (c : Context) (f : FunctionDef) (args : List Value) (b : Context) :
    Prop where
  params (name : String) (v : Value) : b.scopes.localFrame.get? name = some v ↔
    ∃ i, Frame.LastParam f.params name i ∧ v = (args[i]?).getD .undefined
  unlocked (name : String) : b.scopes.localFrame.isReadOnly name = false
  frames : b.scopes.view = c.scopes.view.called.withLocal b.scopes.localFrame
  others : b.withForeground c.foreground =
    { c with
      scopes := { c.scopes with depth := c.scopes.depth + 1 }
      output := c.output.push }

theorem Context.view_bodyStart {c : Context} (h : c.scopes.Tidy) (f : FunctionDef)
    (args : List Value) : (c.bodyStart f args).scopes.view =
      c.scopes.view.called.withLocal (Frame.empty.bindParams f.params args) := by
  have hpush : Scopes.Tidy { c.scopes.pushLocal with depth := c.scopes.depth + 1 } := h.pushLocal
  refine (hpush.view_setLocalFrame _).trans ?_
  rw [h.view_enter]

theorem Context.localFrame_bodyStart {c : Context} (h : c.scopes.Tidy) (f : FunctionDef)
    (args : List Value) : (c.bodyStart f args).scopes.localFrame =
      Frame.empty.bindParams f.params args := by
  have hlocals := (c.bodyStart f args).scopes.view_locals
  rw [view_bodyStart h] at hlocals
  exact (List.cons.inj hlocals).1.symm

theorem Context.begins_bodyStart {c : Context} (h : c.scopes.Tidy) (f : FunctionDef)
    (args : List Value) : c.Begins f args (c.bodyStart f args) := by
  have hlocal := localFrame_bodyStart h f args
  constructor
  · intro name v
    rw [hlocal, Frame.get?_bindParams]
    simp [Frame.get?, Frame.empty]
  · intro name
    rw [hlocal]
    exact Frame.isReadOnly_bindParams (Frame.isReadOnly_empty name)
  · rw [hlocal]
    exact view_bodyStart h f args
  · rfl

/-! ## Calls -/

/-- What a body comes to as the value of its call: what it returns, or else the text that it
wrote. -/
def Flow.returned (text : Value) : Flow → Value
  | .leave (some v) => v
  | _ => text

/-- The result, changed. -/
def Outcome.map {α β : Type} (f : α → β) : Outcome α → Outcome β
  | .ok a => .ok (f a)
  | .error e => .error e
  | .outOfFuel => .outOfFuel

theorem Action.bind_pure_apply {α β : Type} (x : Action α) (f : α → β) (c : Context) :
    (x >>= fun a => pure (f a)) c = ((x c).1.map f, (x c).2) := by
  rw [bind_apply]
  rcases x c with ⟨a | e | _, d⟩ <;> rfl

/-- What a call comes to after its body: the buffer and the local frame are given back. -/
def finishCall (body : Outcome Flow × Context) : Outcome Value × Context :=
  let written := closed Region.output.close body
  let value := written.1.map fun x => x.1.returned x.2
  let left := closed Region.function.close (value, written.2)
  (left.1.map Prod.fst, left.2)

theorem setLocalFrame_localFrame (s : Scopes) : s.setLocalFrame s.localFrame = s := by
  obtain ⟨⟨frames, free⟩, globals, locals, loops, depth, iterations⟩ := s
  simp only [Scopes.setLocalFrame, Scopes.localFrame, FramePool.set, FramePool.get,
    Scopes.mk.injEq, FramePool.mk.injEq, and_true]
  by_cases h : locals.top < frames.size
  · simp [Array.setIfInBounds, h]
  · simp [Array.setIfInBounds, h]

theorem setLocalFrame_setLocalFrame (s : Scopes) (f g : Frame) :
    (s.setLocalFrame f).setLocalFrame g = s.setLocalFrame g := by
  simp [Scopes.setLocalFrame, FramePool.set]

theorem localFrame_setLocalFrame {s : Scopes} (h : s.Tidy) (f : Frame) :
    (s.setLocalFrame f).localFrame = f := by
  have hlocals := (s.setLocalFrame f).view_locals
  rw [h.view_setLocalFrame] at hlocals
  exact (List.cons.inj hlocals).1.symm

theorem bindParams_eq {c : Context} (h : c.scopes.Tidy) (params : List String)
    (args : List Value) : Machine.bindParams params args c = (.ok (), { c with
      scopes := c.scopes.setLocalFrame (c.scopes.localFrame.bindParams params args) }) := by
  induction params generalizing c args with
  | nil => simp only [Machine.bindParams, Frame.bindParams, setLocalFrame_localFrame, pure_apply]
  | cons param rest ih =>
    let s := c.scopes.setLocalFrame
      (c.scopes.localFrame.define param (args.head?.getD .undefined) false)
    have hbind : bindLocal param (args.head?.getD .undefined) c =
      (.ok (), { c with scopes := s }) := rfl
    rw [Machine.bindParams, bind_of_ok hbind, ih (h.setLocalFrame _)]
    simp only [s, localFrame_setLocalFrame h, setLocalFrame_setLocalFrame, Frame.bindParams]

/-- A call is what the body comes to as a value, inside of the two regions. -/
theorem callDefined_of_le (m : Machine) {f : FunctionDef} {args : List Value}
    (hargs : args.length ≤ f.params.length) (p : Position) :
    m.callDefined f args p = Region.function.around (enterFunction p) (do
      Machine.bindParams f.params args
      let x ← Region.output.holding pushOutput (m.run f.body)
      pure (x.1.returned x.2)) := by
  unfold Machine.callDefined
  rw [if_neg (Nat.not_lt.2 hargs)]
  congr 2
  funext _
  congr 1
  funext x
  rcases x with ⟨_ | _ | _ | _ | _, text⟩ <;> rfl

/-- A call that is allowed runs the body where it begins, and gives back what it opened. -/
theorem callDefined_eq (m : Machine) {f : FunctionDef} {args : List Value} {c : Context}
    (h : c.scopes.Tidy) (hargs : args.length ≤ f.params.length)
    (hdepth : c.scopes.depth < c.limits.depth) (p : Position) :
    m.callDefined f args p c = finishCall (m.run f.body (c.bodyStart f args)) := by
  let s := { c.scopes.pushLocal with depth := c.scopes.depth + 1 }
  let begun := { c with scopes := s }
  let bound := { c with scopes := s.setLocalFrame (Frame.empty.bindParams f.params args) }
  have henter : enterFunction p c = (.ok (), begun) := by
    rw [enterFunction, if_pos hdepth]
  have hempty : begun.scopes.localFrame = .empty := h.get_acquire_self
  have hbind : Machine.bindParams f.params args begun = (.ok (), bound) := by
    have hparams := bindParams_eq (c := begun) h.pushLocal f.params args
    rwa [hempty] at hparams
  have hpush : pushOutput bound = (.ok (), c.bodyStart f args) := rfl
  rw [callDefined_of_le m hargs, Region.around, bind_pure_apply, Region.holding,
    between_of_ok henter, bind_of_ok hbind, bind_pure_apply, Region.holding,
    between_of_ok hpush]
  rfl

/-! ## The functions of a template -/

mutual

/-- The functions that a statement defines, however deep. -/
def Stmt.functions : Stmt → List FunctionDef
  | .choose branches otherwise =>
    functionsInBranches branches ++
      match otherwise with
      | none => []
      | some block => functionsIn block
  | .each _ _ body otherwise _ =>
    functionsIn body ++
      match otherwise with
      | none => []
      | some block => functionsIn block
  | .repeatWhile _ body _ => functionsIn body
  | .define i name params body p => ⟨i, name, params, body, p⟩ :: functionsIn body
  | .capture _ body => functionsIn body
  | .text _ | .output _ | .assign _ _ | .assignGlobal _ _ | .leave _ _ | .stop _ | .next _
  | .include _ _ _ => []

/-- The functions that a block defines. -/
def functionsIn : List Stmt → List FunctionDef
  | [] => []
  | s :: rest => s.functions ++ functionsIn rest

/-- The functions that the bodies of branches define. -/
def functionsInBranches : List (Expr × List Stmt) → List FunctionDef
  | [] => []
  | (_, body) :: rest => functionsIn body ++ functionsInBranches rest

end

mutual

theorem Stmt.Lexical.functions {P : String → Prop} :
    ∀ {s : Stmt}, s.Lexical P → ∀ f ∈ s.functions, f.Lexical
  | .choose _ none, .choose _ hb _ => by
    simpa only [Stmt.functions, List.append_nil] using lexical_functionsInBranches hb
  | .choose _ (some b), .choose _ hb ho =>
    List.forall_mem_append.2 ⟨lexical_functionsInBranches hb, lexical_functionsIn (ho b rfl)⟩
  | .each _ _ _ none _, .each _ _ hb _ => by
    simpa only [Stmt.functions, List.append_nil] using lexical_functionsIn hb
  | .each _ _ _ (some o) _, .each _ _ hb ho =>
    List.forall_mem_append.2 ⟨lexical_functionsIn hb, lexical_functionsIn (ho o rfl)⟩
  | .repeatWhile _ _ _, .repeatWhile _ _ hb => lexical_functionsIn hb
  | .define _ _ _ _ _, .define _ _ _ _ hb => List.forall_mem_cons.2 ⟨hb, lexical_functionsIn hb⟩
  | .capture _ _, .capture _ hb => lexical_functionsIn hb
  | .text _, _ | .output _, _ | .assign _ _, _ | .assignGlobal _ _, _ | .leave _ _, _
  | .stop _, _ | .next _, _ | .include _ _ _, _ => nofun

theorem lexical_functionsIn {P : String → Prop} :
    ∀ {b : List Stmt}, Block.Lexical P b → ∀ f ∈ functionsIn b, f.Lexical
  | [], _ => nofun
  | _ :: _, h => List.forall_mem_append.2
    ⟨(List.forall_mem_cons.1 h).1.functions, lexical_functionsIn (List.forall_mem_cons.1 h).2⟩

theorem lexical_functionsInBranches {P : String → Prop} : ∀ {bs : List (Expr × List Stmt)},
    (∀ x ∈ bs, Block.Lexical P x.2) → ∀ f ∈ functionsInBranches bs, f.Lexical
  | [], _ => nofun
  | (_, _) :: _, h => List.forall_mem_append.2
    ⟨lexical_functionsIn (List.forall_mem_cons.1 h).1,
      lexical_functionsInBranches (List.forall_mem_cons.1 h).2⟩

end

/-- The function is defined in a template that was read from a source and numbered. -/
def FunctionDef.OfSource (f : FunctionDef) : Prop :=
  ∃ name source options t, Template.parse name source options = .ok t ∧
    ∃ n, f ∈ functionsIn (t.identify n).1.body

theorem FunctionDef.OfSource.lexical {f : FunctionDef} (h : f.OfSource) : f.Lexical := by
  obtain ⟨name, source, options, t, hread, n, hf⟩ := h
  exact lexical_functionsIn ((lexical_of_parse hread).identify n) f hf

end TemplateEngine
