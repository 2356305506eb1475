import TemplateEngine.Proofs.Lexical.Regions

/-!
# Rounds in lockstep

A loop that begins takes over what the loop around it binds. While its rounds go on, its frame binds
at least the names that this loop does not bind itself (`ScopeView.Rounds`); a round binds these as
well before its body runs, so that the body sees exactly what its place in the syntax says
(`lockstep_round`). Rounds in lockstep make loops in lockstep (`lockstep_forEach`,
`lockstep_whileLoop`).
-/

namespace TemplateEngine

open ScopeView

/-! ## What rounds see -/

/-- The frame binds the names to what they stand for, and locks them. -/
def Frame.HoldsAll (k : Frame) (names : LoopNames) : Prop := ∀ n, ∀ u ∈ names n, k.Holds n u

namespace LoopNames

/-- The names that a `for` leaves as they are. -/
def without (names : LoopNames) (name : String) : LoopNames :=
  fun n => if "loop" = n ∨ name = n then .none else names n

theorem mem_without {names : LoopNames} {name n : String} {u : Value}
    (h : u ∈ names.without name n) : u ∈ names n ∧ "loop" ≠ n ∧ name ≠ n := by
  unfold without at h
  split at h
  · cases h
  · next hne =>
    rw [not_or] at hne
    exact ⟨h, hne⟩

theorem mem_within_of_mem_without {names : LoopNames} {name n : String} {item info u : Value}
    (h : u ∈ names.without name n) : u ∈ names.within name item info n := by
  obtain ⟨hu, hl, hn⟩ := mem_without h
  simpa [within, bind, hl, hn] using hu

/-- Whatever a `for` binds itself is what it binds last. -/
theorem within_without (names : LoopNames) (name : String) (item info : Value) :
    ((names.without name).bind name item).bind "loop" info = names.within name item info := by
  funext n
  by_cases hl : "loop" = n
  · simp [within, bind, hl]
  · by_cases hn : name = n
    · simp [within, bind, hl, hn]
    · simp [within, bind, without, hl, hn]

theorem held_of_holdsAll {names : LoopNames} {v : ScopeView} {k : Frame} (hk : v.loop? = some k)
    (h : k.HoldsAll names) : names.Held v := fun n u hu => ⟨k, hk, h n u hu⟩

theorem Held.inherited {names : LoopNames} {v : ScopeView} (h : names.Held v) :
    v.inherited.HoldsAll names := by
  intro n u hu
  obtain ⟨k, hk, hget, hlock⟩ := h n u hu
  rw [Option.mem_def] at hk
  simp only [ScopeView.inherited, hk, Option.map_some, Option.getD_some, Frame.Holds, Frame.get?,
    Frame.isReadOnly, Frame.slots_update_empty]
  exact ⟨hget, hlock⟩

end LoopNames

namespace Frame.HoldsAll

variable {k : Frame} {names other : LoopNames}

theorem mono (h : k.HoldsAll names) (hle : ∀ n, ∀ u ∈ other n, u ∈ names n) : k.HoldsAll other :=
  fun n u hu => h n u (hle n u hu)

theorem define (h : k.HoldsAll names) (name : String) (v : Value) :
    (k.define name v true).HoldsAll (names.bind name v) := by
  intro n u hu
  unfold LoopNames.bind at hu
  unfold Holds
  rw [get?_define, isReadOnly_define]
  split at hu
  · next hn =>
    cases hu
    simp [hn]
  · next hn =>
    rw [if_neg hn, if_neg hn]
    exact h n u hu

end Frame.HoldsAll

/-- Both runs are in the rounds of a loop at a place that began where these views were seen: the
local bindings are the same, and the innermost loop binds these names. -/
def ScopeView.Rounds (names : LoopNames) (p : Position) (v w : ScopeView) :
    ScopeView → ScopeView → Prop := fun v' w' =>
  ∃ f k l : Frame, f.Lexical ∧ k.HoldsAll names ∧ l.HoldsAll names ∧
    v' = ((v.looping p).withLoop k).withLocal f ∧ w' = ((w.looping p).withLoop l).withLocal f

theorem ScopeView.Rounds.mono {names other : LoopNames} {p : Position} {v w : ScopeView}
    (hle : ∀ n, ∀ u ∈ other n, u ∈ names n) :
    ∀ v' w', Rounds names p v w v' w' → Rounds other p v w v' w' := by
  rintro _ _ ⟨f, k, l, hf, hk, hl, hv, hw⟩
  exact ⟨f, k, l, hf, hk.mono hle, hl.mono hle, hv, hw⟩

namespace Action

variable {α : Type} {A : α → Prop} {x y : Action α} {names other : LoopNames} {p : Position}
  {v w : ScopeView}

/-- What runs in lockstep inside of any loop that binds the names does so in the rounds of one. -/
theorem lockstep_rounds (h : ∀ v' w', names.Held v' → names.Held w' → v'.position = p →
    w'.position = p → Lockstep (Inside v' w') A x y) : Lockstep (Rounds names p v w) A x y := by
  intro c d hcd
  obtain ⟨f, k, l, hf, hk, hl, hcv, hdv⟩ := hcd.views
  have hv : ((v.looping p).withLoop k).loop? = some k := by simp
  have hw : ((w.looping p).withLoop l).loop? = some l := by simp
  obtain ⟨⟨ho, hr, ht⟩, hsame⟩ := h _ _ (LoopNames.held_of_holdsAll hv hk)
    (LoopNames.held_of_holdsAll hw hl) (by simp) (by simp) c d
    { hcd with views := ⟨f, hf, hcv, hdv⟩ }
  refine ⟨⟨ho, hr, ht.mono ?_⟩, hsame⟩
  rintro _ _ ⟨g, hg, rfl, rfl⟩
  exact ⟨g, k, l, hg, hk, hl, rfl, rfl⟩

/-! ## Beginning and ending -/

theorem inLoop_eq (p : Position) (x : Action Flow) :
    Machine.inLoop p x = Region.loop.around (enterLoop p >>= fun _ => inheritLoop) x := rfl

theorem opens_loop (hv : names.Held v) (hw : names.Held w)
    (hle : ∀ n, ∀ u ∈ other n, u ∈ names n) {c d : Context} (h : c.Twins (Inside v w) d) :
    OpensAlike (Inside v w) (Rounds other p v w) ((enterLoop p >>= fun _ => inheritLoop) c)
      ((enterLoop p >>= fun _ => inheritLoop) d) := by
  obtain ⟨f, hf, hcv, hdv⟩ := h.views
  obtain ⟨hc, hcview⟩ := h.left.inherit p
  obtain ⟨hd, hdview⟩ := h.right.inherit p
  refine .opened (h.onFrames (c.scopes.inherit_eq p) (d.scopes.inherit_eq p) hc hd
    ⟨f, v.inherited, w.inherited, hf, hv.inherited.mono hle, hw.inherited.mono hle, ?_, ?_⟩)
  · rw [hcview, hcv]
    rfl
  · rw [hdview, hdv]
    rfl

/-- A loop ends with what was seen before it. -/
theorem exitLoop_of_view {c : Context} (h : c.scopes.Tidy) {f k : Frame}
    (hview : c.scopes.view = ((v.looping p).withLoop k).withLocal f) :
    ∃ t : Scopes, exitLoop c = (.ok (), { c with scopes := t }) ∧ t.Tidy ∧
      t.view = v.withLocal f ∧
      t = { c.scopes with pool := t.pool, locals := t.locals, loops := t.loops } := by
  have hloops : c.scopes.view.loops ≠ [] := by
    rw [hview]
    exact List.cons_ne_nil _ _
  obtain ⟨t, hpop, htidy, heq, ht⟩ := h.popLoop hloops
  refine ⟨t, by simp only [exitLoop, hpop], htidy, ?_, ?_⟩
  · rw [ht, hview]
    rfl
  · rw [heq]

theorem closes_loop {c d : Context} (h : c.Twins (Rounds names p v w) d) :
    EndsAlike (fun _ => True) (Inside v w) (Region.loop.close c) (Region.loop.close d) := by
  obtain ⟨f, k, l, hf, -, -, hcv, hdv⟩ := h.views
  obtain ⟨s, hc, hs, hsv, hseq⟩ := exitLoop_of_view h.left hcv
  obtain ⟨t, hd, ht, htv, hteq⟩ := exitLoop_of_view h.right hdv
  simp only [Region.close, bind_of_ok hc, bind_of_ok hd]
  exact ⟨rfl, .ok trivial, h.onFrames hseq hteq hs ht ⟨f, hf, hsv, htv⟩⟩

/-- The rounds of a loop that binds some of the names around it anew. -/
theorem lockstep_inLoop {x y : Action Flow} {A : Flow → Prop} (hv : names.Held v)
    (hw : names.Held w) (hle : ∀ n, ∀ u ∈ other n, u ∈ names n)
    (h : Lockstep (Rounds other p v w) A x y) :
    Lockstep (Inside v w) A (Machine.inLoop p x) (Machine.inLoop p y) := by
  rw [inLoop_eq, inLoop_eq]
  exact lockstep_around (fun _ _ => opens_loop hv hw hle) (fun _ _ => closes_loop) h

/-! ## Rounds -/

theorem lockstep_stepLoop {P : ScopeView → ScopeView → Prop}
    (hP : ∀ v w, P v w → v.position = w.position) :
    Lockstep P (fun _ => True) stepLoop stepLoop := by
  intro c d h
  refine ⟨?_, fun heq => congrArg stepLoop heq⟩
  have ht : Context.Twins P
      { c with scopes := { c.scopes with iterations := c.scopes.iterations + 1 } }
      { d with scopes := { d.scopes with iterations := d.scopes.iterations + 1 } } :=
    h.onScopes h.globals h.depth (congrArg (· + 1) h.iterations) h.lexical.globals h.left h.right
      h.views
  have hposition : c.scopes.loopPosition = d.scopes.loopPosition := by
    rw [Scopes.loopPosition_eq, Scopes.loopPosition_eq, hP _ _ h.views]
  simp only [stepLoop, h.iterations, h.limits, hposition] at ht ⊢
  split
  · exact ⟨rfl, .ok trivial, ht⟩
  · exact ⟨rfl, .error id, ht⟩

/-- A name is bound in the innermost loop on both sides. -/
theorem moves_bindLoop (name : String) (u : Value) :
    (bindLoop name u).Moves (Rounds names p v w) (fun _ => True)
      fun _ => Rounds (names.bind name u) p v w := by
  intro c d h
  obtain ⟨f, k, l, hf, hk, hl, hcv, hdv⟩ := h.views
  have hck : c.scopes.loopFrame? = some k := by
    rw [Scopes.loopFrame?_eq, hcv]
    simp
  have hdl : d.scopes.loopFrame? = some l := by
    rw [Scopes.loopFrame?_eq, hdv]
    simp
  refine ⟨(), _, _, by simp only [bindLoop, hck]; rfl, by simp only [bindLoop, hdl]; rfl, trivial,
    h.onFrames (c.scopes.setLoopFrame_eq _) (d.scopes.setLoopFrame_eq _) (h.left.setLoopFrame _)
      (h.right.setLoopFrame _) ⟨f, k.define name u true, l.define name u true, hf,
        hk.define name u, hl.define name u, ?_, ?_⟩⟩
  · rw [h.left.view_setLoopFrame, hcv]
    simp
  · rw [h.right.view_setLoopFrame, hdv]
    simp

theorem moves_of_unaware {P : ScopeView → ScopeView → Prop} (hu : x.Unaware) (hy : x.Yields A)
    (hx : ∀ c, ∃ a, (x c).1 = .ok a) : x.Moves P A fun _ => P := by
  intro c d h
  obtain ⟨⟨ho, hr, ht⟩, -⟩ := Lockstep.of_unaware hu hy c d h
  obtain ⟨a, ha⟩ := hx c
  rw [ha] at ho hr
  cases hr with
  | ok hA => exact ⟨a, _, _, Prod.ext ha rfl, Prod.ext ho.symm rfl, hA, ht⟩

theorem Moves.bind {β : Type} {P : ScopeView → ScopeView → Prop} {B : β → Prop}
    {Q : α → ScopeView → ScopeView → Prop} {R : β → ScopeView → ScopeView → Prop}
    {f : α → Action β} (hx : x.Moves P A Q) (hf : ∀ a, A a → (f a).Moves (Q a) B R) :
    (x >>= f).Moves P B R := by
  intro c d h
  obtain ⟨a, c', d', hc, hd, ha, ht⟩ := hx c d h
  obtain ⟨b, c'', d'', hc', hd', hb, ht'⟩ := hf a ha c' d' ht
  exact ⟨b, c'', d'', (bind_of_ok hc).trans hc', (bind_of_ok hd).trans hd', hb, ht'⟩

theorem moves_pure {P : ScopeView → ScopeView → Prop} {a : α} (h : A a) :
    (pure a : Action α).Moves P A fun b v w => b = a ∧ P v w :=
  fun c d hcd => ⟨a, c, d, rfl, rfl, h, hcd.mono fun _ _ hP => ⟨rfl, hP⟩⟩

theorem Moves.mono {P : ScopeView → ScopeView → Prop} {Q R : α → ScopeView → ScopeView → Prop}
    (h : x.Moves P A Q) (hQR : ∀ a v w, Q a v w → R a v w) : x.Moves P A R := by
  intro c d hcd
  obtain ⟨a, c', d', hc, hd, ha, ht⟩ := h c d hcd
  exact ⟨a, c', d', hc, hd, ha, ht.mono (hQR a)⟩

/-- Binds what the body of a round can name, and gives what is told about the round. -/
def prepareRound (name : String) (length : Nat) (item : Value × Nat) : Action Value := do
  bindLoop name item.1
  let info ← onStore fun s => s.newMap (Machine.loopEntries item.2 length)
  bindLoop "loop" info
  pure info

theorem eachBodyBy_eq (name : String) (length : Nat) (body : Value → Value → Action Flow)
    (item : Value × Nat) :
    Machine.eachBodyBy name length body item = (do
      stepLoop
      let info ← prepareRound name length item
      let flow ← body item.1 info
      pure flow.endsLoop) := by
  simp only [Machine.eachBodyBy, prepareRound, bind_assoc, pure_bind]

theorem lexical_loopEntries (index length : Nat) :
    (Machine.loopEntries index length).All Value.Lexical := by
  refine .ofList ?_
  simp only [List.forall_mem_cons, List.not_mem_nil, false_imp_iff, implies_true, and_true]
  exact ⟨trivial, trivial, trivial, trivial, trivial⟩

theorem moves_prepareRound (name : String) (length : Nat) (item : Value × Nat) :
    (prepareRound name length item).Moves (Rounds (names.without name) p v w) Value.Lexical
      fun info => Rounds (names.within name item.1 info) p v w := by
  refine .bind (moves_bindLoop name item.1) fun _ _ => ?_
  refine .bind (moves_of_unaware (.onStore _) (yields_newMap (lexical_loopEntries item.2 length))
    fun c => ⟨_, rfl⟩) fun info hinfo => ?_
  refine .bind (moves_bindLoop "loop" info) fun _ _ => (moves_pure hinfo).mono ?_
  rintro _ v' w' ⟨rfl, h⟩
  rwa [LoopNames.within_without] at h

end Action

/-! ## Loops -/

/-- The value that leaves, if there is one, is lexical. -/
def Flow.Lexical : Flow → Prop
  | .leave (some v) => v.Lexical
  | .leave none | .normal | .stop | .next => True

/-- If a round ends its loop, then with something lexical. -/
def Flow.LexicalEnd (o : Option Flow) : Prop := ∀ flow ∈ o, flow.Lexical

theorem Flow.Lexical.endsLoop {flow : Flow} (h : flow.Lexical) : LexicalEnd flow.endsLoop := by
  rintro _ hf
  cases flow with
  | normal => cases hf
  | next => cases hf
  | stop =>
    cases hf
    trivial
  | leave v =>
    cases hf
    exact h

namespace Action

variable {names : LoopNames} {p : Position} {v w : ScopeView}

/-- A round of a `for`: its body sees the item and what is told about the round. -/
theorem lockstep_round {name : String} (length : Nat) {item : Value × Nat} {x : Action Flow}
    {y : Value → Value → Action Flow} (h : ∀ info : Value, info.Lexical → ∀ v' w' : ScopeView,
      (names.within name item.1 info).Held v' → (names.within name item.1 info).Held w' →
      Lockstep (Inside v' w') Flow.Lexical x (y item.1 info)) :
    Lockstep (Rounds (names.without name) p v w) Flow.LexicalEnd
      (Machine.eachBody name length x item) (Machine.eachBodyBy name length y item) := by
  change Lockstep _ _ (Machine.eachBodyBy name length (fun _ _ => x) item) _
  rw [eachBodyBy_eq, eachBodyBy_eq]
  have hposition : ∀ v' w', Rounds (names.without name) p v w v' w' →
      v'.position = w'.position := by
    rintro _ _ ⟨f, k, l, -, -, -, rfl, rfl⟩
    simp
  refine .bind (lockstep_stepLoop hposition) fun _ _ => ?_
  -- from here on the frame binds the names of this loop as well, and after the body it still does
  refine .after (moves_prepareRound name length item) (fun info hinfo => ?_)
    fun info => Rounds.mono fun n u => LoopNames.mem_within_of_mem_without
  exact .bind (lockstep_rounds fun v' w' hv hw _ _ => h info hinfo v' w' hv hw)
    fun flow hflow => .pure hflow.endsLoop

theorem lockstep_eachRound {β : Type} {P : ScopeView → ScopeView → Prop}
    {f g : β → Action (Option Flow)} {items : List β}
    (h : ∀ a ∈ items, Lockstep P Flow.LexicalEnd (f a) (g a)) :
    Lockstep P Flow.Lexical (Machine.eachRound f items) (Machine.eachRound g items) := by
  induction items with
  | nil => exact .pure trivial
  | cons a rest ih =>
    rw [List.forall_mem_cons] at h
    rw [Machine.eachRound_cons, Machine.eachRound_cons]
    refine .bind h.1 ?_
    rintro (_ | flow) hflow
    · exact ih h.2
    · exact .pure (hflow flow rfl)

theorem lockstep_forEach (hv : names.Held v) (hw : names.Held w) {name : String}
    {items : List Value} (hitems : ∀ item ∈ items, item.Lexical) {x : Action Flow}
    {y : Value → Value → Action Flow}
    (h : ∀ item info : Value, item.Lexical → info.Lexical → ∀ v' w' : ScopeView,
      (names.within name item info).Held v' → (names.within name item info).Held w' →
      Lockstep (Inside v' w') Flow.Lexical x (y item info)) :
    Lockstep (Inside v w) Flow.Lexical (Machine.forEach name p items x)
      (Machine.forEachBy name p items y) := by
  have hle : ∀ n, ∀ u ∈ names.without name n, u ∈ names n :=
    fun n u hu => (LoopNames.mem_without hu).1
  refine lockstep_inLoop hv hw hle (lockstep_eachRound fun item hitem => ?_)
  exact lockstep_round items.length fun info hinfo =>
    h item.1 info (hitems _ (List.fst_mem_of_mem_zipIdx hitem)) hinfo

theorem lockstep_repeatRound {P : ScopeView → ScopeView → Prop} {f g : Action (Option Flow)}
    (h : Lockstep P Flow.LexicalEnd f g) (n : Nat) :
    Lockstep P Flow.Lexical (Machine.repeatRound f n) (Machine.repeatRound g n) := by
  induction n with
  | zero => exact fun c d hcd => ⟨⟨rfl, .outOfFuel, hcd⟩, fun heq => by rw [heq]; rfl⟩
  | succ n ih =>
    rw [Machine.repeatRound_succ, Machine.repeatRound_succ]
    refine .bind h ?_
    rintro (_ | flow) hflow
    · exact ih
    · exact .pure (hflow flow rfl)

theorem lockstep_whileLoop (hv : names.Held v) (hw : names.Held w) {a b : Action Value}
    {x y : Action Flow} (h : ∀ v' w' : ScopeView, names.Held v' → names.Held w' →
      Lockstep (Inside v' w') Value.Lexical a b ∧ Lockstep (Inside v' w') Flow.Lexical x y) :
    Lockstep (Inside v w) Flow.Lexical (Machine.whileLoop p a x) (Machine.whileLoop p b y) := by
  refine lockstep_inLoop hv hw (fun _ _ => id) (lockstep_rounds fun v' w' hv' hw' hvp hwp => ?_)
  obtain ⟨hcondition, hbody⟩ := h v' w' hv' hw'
  have hstep : Lockstep (Inside v' w') (fun _ => True) stepLoop stepLoop := by
    refine lockstep_stepLoop ?_
    rintro _ _ ⟨f, -, rfl, rfl⟩
    rw [position_withLocal, position_withLocal, hvp, hwp]
  have hround : Lockstep (Inside v' w') Flow.LexicalEnd (Machine.whileBody a x)
      (Machine.whileBody b y) :=
    .bind hcondition fun _ _ => .bind (.isTruthy _) fun _ _ =>
      .ite (.bind hstep fun _ _ => .bind hbody fun flow hflow => .pure hflow.endsLoop)
        (.pure (by rintro _ ⟨⟩; trivial))
  intro c d hcd
  have hbound : c.limits.loops - c.scopes.iterations = d.limits.loops - d.scopes.iterations := by
    rw [hcd.limits, hcd.iterations]
  dsimp only
  rw [hbound]
  exact lockstep_repeatRound hround (d.limits.loops - d.scopes.iterations + 1) c d hcd

end Action

end TemplateEngine
