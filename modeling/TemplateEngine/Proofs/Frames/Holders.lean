import TemplateEngine.Proofs.Variables.ReadBack

/-!
# What local frames are held for

A local frame is opened for a model or for a call, and the frame that is closed should be the one
that was opened for what is closed with it, so that no local name outlives its model or its call
(`Context.Holds`, `ScopeStep.track`). But models and calls take the frame that is on top, whatever
it was opened for. It is the right one as long as each closing closes what was opened last
(`Nested`), and the first closing out of turn takes a wrong one (`frames_follow_iff_nested`).
-/

namespace TemplateEngine

open TemplateEngine.Action

/-! ## Runs -/

/-- What a local frame is opened for. -/
inductive Holder
  | model
  | call
deriving DecidableEq

/-- What is done with models, calls and local names. -/
inductive ScopeStep
  | openModel (model : Value)
  | closeModel
  | beginCall (p : Position)
  | endCall
  | assign (name : String) (v : Value) (p : Position)

/-- A local frame that is open, what it was opened for if this is known, and the names in it. -/
structure LocalScope where
  holder : Option Holder
  frame : Nat
  locals : String → Value

namespace ScopeStep

/-- Does it, without what it gives. -/
def act : ScopeStep → Action Unit
  | openModel model => pushGlobal model
  | closeModel => do let _ ← popGlobal
  | beginCall p => enterFunction p
  | endCall => exitFunction
  | assign name v p => writeVariable ⟨name, .locals, p⟩ v

/-- The scopes that should be open once the step has led to a context: one more for what is opened,
without the one of what is closed, or with a name bound in the innermost one. -/
def track (d : Context) (scopes : List LocalScope) : ScopeStep → List LocalScope
  | openModel _ => ⟨some .model, d.scopes.locals.top, fun _ => .undefined⟩ :: scopes
  | closeModel => scopes.eraseP fun x => x.holder = some .model
  | beginCall _ => ⟨some .call, d.scopes.locals.top, fun _ => .undefined⟩ :: scopes
  | endCall => scopes.eraseP fun x => x.holder = some .call
  | assign name v _ =>
    scopes.modifyHead fun x => { x with locals := Function.update x.locals name v }

/-- If the step closes anything, it is what was opened last. -/
def ClosesLast (holders : List (Option Holder)) : ScopeStep → Prop
  | closeModel => holders.head? = some (some .model)
  | endCall => holders.head? = some (some .call)
  | openModel _ | beginCall _ | assign _ _ _ => True

/-- What is open after a step that closes what was opened last. -/
def after (holders : List (Option Holder)) : ScopeStep → List (Option Holder)
  | openModel _ => some .model :: holders
  | beginCall _ => some .call :: holders
  | closeModel | endCall => holders.tail
  | assign _ _ _ => holders

end ScopeStep

/-- Every step succeeds. -/
def Accepted : List ScopeStep → Context → Prop
  | [], _ => True
  | step :: rest, c => (step.act c).1 = .ok () ∧ Accepted rest (step.act c).2

/-- Every closing closes what was opened last. -/
def Nested : List (Option Holder) → List ScopeStep → Prop
  | _, [] => True
  | holders, step :: rest => step.ClosesLast holders ∧ Nested (step.after holders) rest

/-- The local frames are those of the scopes, innermost first, they bind what the scopes say, and a
local name reads as the innermost scope has it. -/
structure Context.Holds (c : Context) (scopes : List LocalScope) : Prop where
  frames : c.scopes.locals.toList = scopes.map LocalScope.frame
  locals (x : LocalScope) : x ∈ scopes → (c.scopes.pool.get x.frame).get = x.locals
  reads (ref : VarRef) : ref.scope = .locals →
    ∀ x ∈ scopes.head?, readVariable ref c = (.ok (x.locals ref.name), c)

/-- At every moment of the run the local frames are those of the scopes that should be open. -/
def Follows : List LocalScope → List ScopeStep → Context → Prop
  | scopes, [], c => c.Holds scopes
  | scopes, step :: rest, c =>
    c.Holds scopes ∧ Follows (step.track (step.act c).2 scopes) rest (step.act c).2

theorem Follows.holds {scopes : List LocalScope} {steps : List ScopeStep} {c : Context}
    (h : Follows scopes steps c) : c.Holds scopes := by
  cases steps with
  | nil => exact h
  | cons step rest => exact h.1

/-! ## One step -/

namespace Context

variable {c d : Context} {scopes : List LocalScope}

/-- What is read comes from the frame on top. -/
theorem Holds.of_frames (hframes : c.scopes.locals.toList = scopes.map LocalScope.frame)
    (hlocals : ∀ x ∈ scopes, (c.scopes.pool.get x.frame).get = x.locals) : c.Holds scopes := by
  refine ⟨hframes, hlocals, fun ref hscope x hx => ?_⟩
  obtain ⟨rest, rfl⟩ := List.head?_eq_some_iff.1 hx
  rw [Scopes.toList_eq_top_cons, List.map_cons] at hframes
  have htop := (List.cons.inj hframes).1
  rw [readVariable_locals hscope, Scopes.localFrame, htop, hlocals x List.mem_cons_self]

/-- The local frames of a context, whatever they were opened for. -/
def localScopes (c : Context) : List LocalScope :=
  c.scopes.locals.toList.map fun i => ⟨none, i, (c.scopes.pool.get i).get⟩

theorem holds_localScopes (c : Context) : c.Holds c.localScopes := by
  refine .of_frames ?_ fun x hx => ?_
  · unfold localScopes
    rw [List.map_map, Function.comp_def, List.map_id']
  · obtain ⟨i, -, rfl⟩ := List.mem_map.1 hx
    rfl

/-- Some scope is innermost, and no other has its frame. -/
theorem Holds.innermost (h : c.Holds scopes) (horder : c.scopes.Tidy) :
    ∃ x rest, scopes = x :: rest ∧ x.frame = c.scopes.locals.top ∧
      rest.map LocalScope.frame = c.scopes.locals.toList.tail ∧
      ∀ y ∈ rest, c.scopes.locals.top ≠ y.frame := by
  have hframes := h.frames
  have hne := horder.top_ne.1
  rw [Scopes.toList_eq_top_cons] at hframes
  cases scopes with
  | nil => cases hframes
  | cons x rest =>
    rw [List.map_cons, List.cons.injEq] at hframes
    refine ⟨x, rest, rfl, hframes.1.symm, hframes.2.symm, fun y hy => hne _ ?_⟩
    rw [hframes.2]
    exact List.mem_map_of_mem hy

/-- A frame that is opened binds nothing, and the others stay as they are. -/
theorem Holds.opened (h : c.Holds scopes) (horder : c.scopes.Tidy) (holder : Option Holder)
    (hpool : d.scopes.pool = c.scopes.pool.acquire.2)
    (hlocals : d.scopes.locals = c.scopes.locals.push c.scopes.pool.acquire.1) :
    d.Holds (⟨holder, d.scopes.locals.top, fun _ => .undefined⟩ :: scopes) := by
  have htop : d.scopes.locals.top = c.scopes.pool.acquire.1 := by rw [hlocals, Stack.top_push]
  refine .of_frames ?_ (List.forall_mem_cons.2 ⟨?_, fun x hx => ?_⟩)
  · rw [htop, hlocals, Stack.toList_push, h.frames, List.map_cons]
  · rw [htop, hpool, FramePool.get_acquire, horder.get_new]
    rfl
  · rw [hpool, FramePool.get_acquire, h.locals x hx]

/-- The frame on top is closed, and it is the right one just if the innermost scope is the one that
should be closed. -/
theorem Holds.closed (h : c.Holds scopes) (horder : c.scopes.Tidy) {i : Nat} {rest : Stack Nat}
    (hpop : c.scopes.locals = rest.push i) (hpool : d.scopes.pool = c.scopes.pool.release i)
    (hlocals : d.scopes.locals = rest) (holder : Holder) :
    d.Holds (scopes.eraseP fun x => x.holder = some holder) ↔
      (scopes.map LocalScope.holder).head? = some (some holder) := by
  obtain ⟨x, others, rfl, hframe, hothers, hne⟩ := h.innermost horder
  rw [hpop, Stack.top_push] at hframe hne
  rw [hpop, Stack.toList_push, List.tail_cons] at hothers
  by_cases hx : x.holder = some holder
  · rw [List.eraseP_cons_of_pos (by simp [hx])]
    refine iff_of_true (.of_frames (hlocals ▸ hothers.symm) fun y hy => ?_) (by simp [hx])
    rw [hpool, FramePool.get_release_of_ne _ (hne y hy), h.locals y (List.mem_cons_of_mem _ hy)]
  · rw [List.eraseP_cons_of_neg (by simp [hx])]
    refine iff_of_false (fun hd => ?_) (by simp [hx])
    -- the innermost scope would keep a frame that none of the others has
    have hmem : x.frame ∈ others.map LocalScope.frame := by
      rw [hothers, ← hlocals, hd.frames]
      exact List.mem_cons_self
    obtain ⟨y, hy, heq⟩ := List.mem_map.1 hmem
    exact hne y hy (hframe.symm.trans heq.symm)

/-- A local name is bound in the innermost scope. -/
theorem Holds.assigned (h : c.Holds scopes) (horder : c.scopes.Tidy) {name : String} {v : Value}
    {p : Position} (hw : writeVariable ⟨name, .locals, p⟩ v c = (.ok (), d)) :
    d.Holds (scopes.modifyHead fun x =>
      { x with locals := Function.update x.locals name v }) := by
  obtain ⟨x, others, rfl, hframe, hothers, hne⟩ := h.innermost horder
  have hd := eq_of_writeVariable_locals rfl hw
  have htop : d.scopes.pool.get x.frame = c.scopes.localFrame.define name v false := by
    rw [hd, hframe]
    exact (horder.seen_setLocalFrame _).1
  have hlocal : c.scopes.localFrame.get = x.locals := by
    rw [← h.locals x List.mem_cons_self, hframe]
    rfl
  refine .of_frames ?_ (List.forall_mem_cons.2 ⟨?_, fun y hy => ?_⟩)
  · rw [hd]
    exact h.frames
  · funext key
    rw [htop, Frame.get_define, hlocal]
    dsimp only
    rw [Function.update_apply]
    exact if_congr eq_comm rfl rfl
  · rw [← h.locals y (List.mem_cons_of_mem _ hy), hd]
    exact congrArg Frame.get (FramePool.get_set_of_ne _ (hne y hy) _)

end Context

variable {s : Settings} {c : Context} {scopes : List LocalScope}

theorem ScopeStep.orderly (step : ScopeStep) : step.act.Orderly s := by
  cases step with
  | openModel model => exact orderly_pushGlobal model
  | closeModel => exact .bind orderly_popGlobal fun _ => .pure ()
  | beginCall p => exact orderly_enterFunction p
  | endCall => exact orderly_exitFunction
  | assign name v p => exact (Primitive.writeVariable _ v).orderly

/-- Closing a model takes back the frame on top. -/
theorem Action.locals_of_popGlobal {d : Context} {v : Value} (h : popGlobal c = (.ok v, d)) :
    ∃ i rest, c.scopes.locals = Stack.push rest i ∧ d.scopes.pool = c.scopes.pool.release i ∧
      d.scopes.locals = rest := by
  unfold popGlobal Scopes.popGlobal? at h
  split at h
  · next hpop =>
    split at hpop
    · next hl =>
      cases h
      cases hpop
      exact ⟨_, _, Stack.pop?_eq_some_iff.1 hl, rfl, rfl⟩
    · cases hpop
  · cases h

/-- So does ending a call. -/
theorem Action.locals_of_exitFunction {d : Context} (h : exitFunction c = (.ok (), d)) :
    ∃ i rest, c.scopes.locals = Stack.push rest i ∧ d.scopes.pool = c.scopes.pool.release i ∧
      d.scopes.locals = rest := by
  unfold exitFunction Scopes.popLocal? at h
  split at h
  · cases h
  · split at h
    · next hpop =>
      split at hpop
      · next hl =>
        cases h
        cases hpop
        exact ⟨_, _, Stack.pop?_eq_some_iff.1 hl, rfl, rfl⟩
      · cases hpop
    · cases h

/-- A step that succeeds leads to the scopes that should be open just if it closes what was opened
last. -/
theorem ScopeStep.holds_iff (step : ScopeStep) (h : c.Holds scopes) (horder : c.scopes.Tidy)
    (hok : (step.act c).1 = .ok ()) :
    (step.act c).2.Holds (step.track (step.act c).2 scopes) ↔
      step.ClosesLast (scopes.map LocalScope.holder) := by
  cases step with
  | openModel model =>
    simp only [act, pushGlobal] at hok ⊢
    split at hok
    · cases hok
    · next hmodel =>
      rw [if_neg hmodel]
      exact iff_of_true (h.opened horder _ rfl rfl) trivial
  | beginCall p =>
    simp only [act, enterFunction] at hok ⊢
    split at hok
    · next hdepth =>
      rw [if_pos hdepth]
      exact iff_of_true (h.opened horder _ rfl rfl) trivial
    · cases hok
  | closeModel =>
    have hw : act .closeModel c = (.ok (), (act .closeModel c).2) := Prod.ext hok rfl
    obtain ⟨v, d, hpop, hd⟩ := bind_eq_ok.1 hw
    obtain ⟨i, rest, hlocals, hpool, hrest⟩ := locals_of_popGlobal hpop
    rw [← (Prod.mk.inj hd).2]
    exact h.closed horder hlocals hpool hrest .model
  | endCall =>
    have hw : act .endCall c = (.ok (), (act .endCall c).2) := Prod.ext hok rfl
    obtain ⟨i, rest, hlocals, hpool, hrest⟩ := locals_of_exitFunction hw
    exact h.closed horder hlocals hpool hrest .call
  | assign name v p =>
    have hw : act (.assign name v p) c = (.ok (), (act (.assign name v p) c).2) := Prod.ext hok rfl
    exact iff_of_true (h.assigned horder hw) trivial

/-- What is open after a step that closes what was opened last. -/
theorem ScopeStep.holders_track (step : ScopeStep) {d : Context}
    (h : step.ClosesLast (scopes.map LocalScope.holder)) :
    (step.track d scopes).map LocalScope.holder = step.after (scopes.map LocalScope.holder) := by
  cases step with
  | openModel model | beginCall p => rfl
  | closeModel | endCall =>
    cases scopes with
    | nil => rfl
    | cons x rest =>
      have hx := Option.some.inj h
      simp only [track, after, List.map_cons, List.tail_cons]
      rw [List.eraseP_cons_of_pos (by simp [hx])]
  | assign name v p => cases scopes <;> rfl

/-! ## Whole runs -/

/-- The frames follow the scopes along a run just if every closing closes what was opened last, by
induction on the run. -/
theorem follows_iff (h : c.Holds scopes) (horder : c.InOrder s) {steps : List ScopeStep}
    (hok : Accepted steps c) :
    Follows scopes steps c ↔ Nested (scopes.map LocalScope.holder) steps := by
  induction steps generalizing c scopes with
  | nil => exact iff_of_true h trivial
  | cons step rest ih =>
    obtain ⟨hstep, hrest⟩ := hok
    have hnext := step.holds_iff h horder.scopes.pool.toSound hstep
    have horder' := step.orderly c horder
    constructor
    · rintro ⟨-, hfollows⟩
      -- the scopes are the right ones after the step, so it closed nothing out of turn
      have hcloses := hnext.1 hfollows.holds
      have hnested := (ih hfollows.holds horder' hrest).1 hfollows
      rw [step.holders_track hcloses] at hnested
      exact ⟨hcloses, hnested⟩
    · rintro ⟨hcloses, hnested⟩
      rw [← step.holders_track hcloses] at hnested
      exact ⟨h, (ih (hnext.2 hcloses) horder' hrest).2 hnested⟩

/-- Whatever was done with a context, and whatever its local frames were opened for: models are then
opened and closed, calls begun and ended and local names assigned, all of it with success. If every
closing closes what was opened last, then each model and each call takes its own frame with it, and
a local name is read only as long as the model or the call is open in which it was assigned. If one
does not, then a frame is closed that belongs to something else. -/
theorem frames_follow_iff_nested {host : Host} (hhost : host.Orderly s) (hc : c.Reached host s)
    (h : c.Holds scopes) {steps : List ScopeStep} (hok : Accepted steps c) :
    Follows scopes steps c ↔ Nested (scopes.map LocalScope.holder) steps :=
  follows_iff h (hc.inOrder hhost) hok

/-- A model that is opened and closed takes the name along that was assigned in between. -/
theorem closed_model_takes_its_names :
    let p : Position := ⟨1, 1⟩
    let c := (Settings.standard id).newContext
    Follows c.localScopes [.openModel (.object 0), .assign "x" (.int 1) p, .closeModel] c := by
  intro p c
  refine (frames_follow_iff_nested Host.none_orderly .opened c.holds_localScopes ?_).2 ?_
  · exact ⟨rfl, rfl, rfl, trivial⟩
  · exact ⟨trivial, trivial, rfl, trivial⟩

/-- A name that was assigned under a model is still read once the model is closed, if a call was
begun in between. -/
example :
    let p : Position := ⟨1, 1⟩
    let steps : List ScopeStep :=
      [.openModel (.object 0), .assign "x" (.int 1) p, .beginCall p, .closeModel]
    let d := steps.foldl (fun c step => (step.act c).2) (Settings.standard id).newContext
    d.scopes.globals.size = 1 ∧ (readVariable ⟨"x", .locals, p⟩ d).1 = .ok (.int 1) := ⟨rfl, rfl⟩

end TemplateEngine
